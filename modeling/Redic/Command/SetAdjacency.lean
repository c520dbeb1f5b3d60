import Redic.Command.SetCommand

/-! # Whole clauses

The operand of a clause is looked for among the arguments that are still free, so it is the one
right behind its token unless the condition or `GET` was taken from there first. Where it is, the
arguments that SET accepts fall into whole clauses.
-/
namespace Redic
open InputArgArray

/-- A clause and the position of its token; the operand stands right behind it. -/
structure PlacedClause where
  clause : SetClause
  position : ℕ

namespace PlacedClause

def positions (placed : PlacedClause) : List ℕ :=
  placed.position :: (placed.clause.operand.map fun _ => placed.position + 1).toList

theorem positions_eq (placed : PlacedClause) :
    placed.positions = [placed.position] ∨
      placed.positions = [placed.position, placed.position + 1] := by
  cases h : placed.clause.operand <;> simp [positions, h]

end PlacedClause

/-- Something that stands in order between two halves of a row of clauses stands between two
clauses: there is no room inside of one. -/
theorem flatMap_eq_append {placed : List PlacedClause} {before after : List ℕ} {idx : ℕ}
    (h : before ++ after = placed.flatMap PlacedClause.positions)
    (hbefore : ∀ i ∈ before, i < idx) (hafter : ∀ i ∈ after, idx < i) :
    ∃ left right, placed = left ++ right ∧ before = left.flatMap PlacedClause.positions ∧
      after = right.flatMap PlacedClause.positions := by
  induction placed generalizing before with
  | nil =>
    obtain ⟨rfl, rfl⟩ := List.append_eq_nil_iff.mp h
    exact ⟨[], [], rfl, rfl, rfl⟩
  | cons clause placed ih =>
    cases before with
    | nil => exact ⟨[], clause :: placed, rfl, rfl, h⟩
    | cons first before =>
      have hrest : ∀ rest, rest ++ after = placed.flatMap PlacedClause.positions →
          (∀ i ∈ rest, i < idx) → first :: before = clause.positions ++ rest →
          ∃ left right, clause :: placed = left ++ right ∧
            first :: before = left.flatMap PlacedClause.positions ∧
            after = right.flatMap PlacedClause.positions := by
        intro rest hsplit hless hfirst
        obtain ⟨left, right, rfl, hleft, hright⟩ := ih hsplit hless
        refine ⟨clause :: left, right, rfl, ?_, hright⟩
        rw [List.flatMap_cons, ← hleft, hfirst]
      rw [List.flatMap_cons] at h
      rcases clause.positions_eq with hone | htwo
      · rw [hone, List.cons_append, List.cons_append, List.nil_append, List.cons.injEq] at h
        apply hrest before h.2 fun i hi => hbefore i (List.mem_cons_of_mem _ hi)
        rw [hone, h.1]
        rfl
      · rw [htwo] at h
        cases before with
        | nil =>
          rw [List.cons_append, List.nil_append, List.cons_append, List.cons.injEq] at h
          have hlow := hbefore first List.mem_cons_self
          have hhigh := hafter (clause.position + 1) (by rw [h.2]; simp)
          omega
        | cons second before =>
          simp only [List.cons_append, List.nil_append, List.cons.injEq] at h
          apply hrest before h.2.2 fun i hi => hbefore i (by simp [hi])
          rw [htwo, h.1, h.2.1]
          rfl

def Reads (iaa : InputArgArray) (clauses : List SetClause) : Prop :=
  ∃ placed : List PlacedClause, iaa.unresolved = placed.flatMap PlacedClause.positions ∧
    clauses = placed.map PlacedClause.clause ∧
    ∀ clause ∈ placed, clause.clause.words = clause.positions.map iaa.text

theorem Reads.texts {iaa : InputArgArray} {clauses : List SetClause} (h : Reads iaa clauses) :
    iaa.unresolved.map iaa.text = clauses.flatMap SetClause.words := by
  obtain ⟨placed, hplaced, rfl, hwords⟩ := h
  rw [hplaced, List.map_flatMap, List.flatMap_map]
  apply List.flatMap_congr
  intro clause hclause
  exact (hwords clause hclause).symm

/-- The operand of a parsed argument stands right behind its token. -/
def CommandArg.Adjacent (arg : CommandArg) : Prop :=
  ∀ token ∈ arg.tokenPositions, ∀ operand ∈ arg.operandPositions, operand = token + 1
  deriving Decidable

variable {iaa iaa' : InputArgArray} {slot : SetSlot} {arg : CommandArg}
  {clauses : List SetClause}

theorem Reads.fill (h : Reads iaa' clauses) (hwhole : iaa.Whole)
    (hparse : parseCommandArgument slot.argDef iaa = .ok (.ok arg, iaa'))
    (hadjacent : arg.Adjacent) (hopen : clauses.filter (SetClause.fills slot) = []) :
    ∃ clauses', Reads iaa clauses' ∧ slotMatched slot clauses' = arg.matched ∧
      (clauses'.filter (SetClause.fills slot)).length ≤ 1 ∧
      ∀ other, other ≠ slot →
        clauses'.filter (SetClause.fills other) = clauses.filter (SetClause.fills other) := by
  obtain ⟨placed, hplaced, hclauses, hwords⟩ := h
  rcases parseSlot_ok hwhole hparse with ⟨-, rfl, hleaves⟩ |
    ⟨token, before, idx, operand, after, value, hfills, hread, rfl, hleaves⟩
  · refine ⟨clauses, ⟨placed, ?_, hclauses, ?_⟩, ?_, ?_, fun _ _ => rfl⟩
    · rw [← hplaced, hleaves.unresolved]
    · rwa [hleaves.text] at hwords
    · rw [slotMatched, ← List.head?_filter, hopen]
      rfl
    · rw [hopen]
      exact Nat.zero_le _
  · have hslot := hfills.token_slot
    let clause : SetClause :=
      ⟨token, iaa.text idx, operand.map iaa.text, hfills.first.spelled, by
        rw [Option.isSome_map, hfills.operand_isSome]⟩
    have hpositions : (⟨clause, idx⟩ : PlacedClause).positions = idx :: operand.toList := by
      cases operand with
      | none => rfl
      | some operand =>
        have hoperand : operand = idx + 1 := hadjacent idx (by simp) operand (by simp)
        subst hoperand
        rfl
    have hsplit := hfills.first.split
    have hsorted := sorted_unresolved iaa
    rw [hsplit, List.pairwise_append, List.pairwise_cons] at hsorted
    obtain ⟨-, ⟨hafter, -⟩, hbefore⟩ := hsorted
    obtain ⟨left, right, rfl, rfl, hright⟩ := flatMap_eq_append
      (hleaves.unresolved.symm.trans hplaced) (fun i hi => hbefore i hi idx List.mem_cons_self)
      (fun i hi => hafter i (List.mem_append_right _ hi))
    have hfill : clause.fills slot = true := by simpa [clause, SetClause.fills] using hslot
    rw [hclauses, List.map_append, List.filter_append, List.append_eq_nil_iff] at hopen
    have hfilter : ((left ++ ⟨clause, idx⟩ :: right).map PlacedClause.clause).filter
        (SetClause.fills slot) = [clause] := by
      rw [List.map_append, List.map_cons, List.filter_append, List.filter_cons_of_pos hfill,
        hopen.1, hopen.2, List.nil_append]
    refine ⟨(left ++ ⟨clause, idx⟩ :: right).map PlacedClause.clause,
      ⟨left ++ ⟨clause, idx⟩ :: right, ?_, rfl, ?_⟩, ?_, ?_, ?_⟩
    · rw [hsplit, List.flatMap_append, List.flatMap_cons, hpositions, hright, List.cons_append]
    · intro other hother
      rw [hleaves.text] at hwords
      rcases List.mem_append.mp hother with hmem | hmem
      · exact hwords other (List.mem_append_left _ hmem)
      · rcases List.mem_cons.mp hmem with rfl | hmem
        · rw [hpositions, SetClause.words, List.map_cons]
          cases operand <;> rfl
        · exact hwords other (List.mem_append_right _ hmem)
    · rw [slotMatched, ← List.head?_filter, hfilter, List.head?_cons, Option.bind_some,
        SetClause.matched, hread]
      rfl
    · rw [hfilter]
      exact Nat.le_refl _
    · intro other hother
      have hskip : ¬ clause.fills other = true := by
        simp only [SetClause.fills, decide_eq_true_eq, clause, hslot]
        exact fun he => hother he.symm
      rw [hclauses, List.map_append, List.map_append, List.map_cons, List.filter_append,
        List.filter_append, List.filter_cons_of_neg hskip]

/-- The three slots of a SET that was accepted, and the free arguments between them. -/
structure ParsedSlots (start iaa₁ iaa₂ iaa₃ : InputArgArray) (condition get expiration : CommandArg) :
    Prop where
  condition : parseCommandArgument SetSlot.condition.argDef start = .ok (.ok condition, iaa₁)
  get : parseCommandArgument SetSlot.get.argDef iaa₁ = .ok (.ok get, iaa₂)
  expiration : parseCommandArgument SetSlot.expiration.argDef iaa₂ = .ok (.ok expiration, iaa₃)
  finished : iaa₃.unresolved = []

theorem parseSet_ok {args : List (List UInt8)} {parsed : List CommandArg}
    (h : parseCommandArguments setArgDefs args = .ok (.ok parsed)) :
    ∃ key value words condition get expiration iaa₁ iaa₂ iaa₃,
      args = key :: value :: words ∧
      parsed = [keyArg key, valueArg value, condition, get, expiration] ∧
      ParsedSlots (behindValue key value words) iaa₁ iaa₂ iaa₃ condition get expiration := by
  obtain ⟨left, hparse, hleft⟩ := parseCommandArguments_ok.mp h
  rw [setArgDefs_eq] at hparse
  obtain ⟨arg₁, next₁, rest₁, hkey, hrest₁, rfl⟩ := parseDefinitions_cons_ok.mp hparse
  obtain ⟨arg₂, next₂, rest₂, hvalue, hrest₂, rfl⟩ := parseDefinitions_cons_ok.mp hrest₁
  obtain ⟨condition, iaa₁, rest₃, hcondition, hrest₃, rfl⟩ := parseDefinitions_cons_ok.mp hrest₂
  obtain ⟨get, iaa₂, rest₄, hget, hrest₄, rfl⟩ := parseDefinitions_cons_ok.mp hrest₃
  obtain ⟨expiration, iaa₃, rest₅, hexpiration, hrest₅, rfl⟩ := parseDefinitions_cons_ok.mp hrest₄
  rw [parseDefinitions] at hrest₅
  cases hrest₅
  obtain ⟨first, others, -, hfree₁, -, -, hnext₁⟩ :=
    parseCommandArgument_plain_ok rfl (by decide) rfl hkey
  obtain ⟨second, behind, -, hfree₂, -⟩ :=
    parseCommandArgument_plain_ok rfl (by decide) rfl hvalue
  rcases args with _ | ⟨key, _ | ⟨value, words⟩⟩
  · cases hfree₁
  · rw [hnext₁, unresolved_resolve_head hfree₁] at hfree₂
    rw [unresolved_create] at hfree₁
    cases hfree₁
    cases hfree₂
  · obtain ⟨hkey', hvalue'⟩ := parseKeyValue key value words
    rw [hkey'] at hkey
    cases hkey
    rw [hvalue'] at hvalue
    cases hvalue
    exact ⟨key, value, words, condition, get, expiration, iaa₁, iaa₂, left, rfl, rfl,
      hcondition, hget, hexpiration, hleft⟩

theorem ParsedSlots.parse {key value : DataString} {words : List (List UInt8)}
    {condition get expiration : CommandArg} {iaa₁ iaa₂ iaa₃ : InputArgArray}
    (h : ParsedSlots (behindValue key value words) iaa₁ iaa₂ iaa₃ condition get expiration) :
    parseCommandArguments setArgDefs (key :: value :: words) =
      .ok (.ok [keyArg key, valueArg value, condition, get, expiration]) := by
  obtain ⟨hkey, hvalue⟩ := parseKeyValue key value words
  have hexpiration : parseDefinitions [SetSlot.expiration.argDef] iaa₂ =
      .ok (.ok [expiration], iaa₃) :=
    parseDefinitions_cons_ok.mpr ⟨_, _, _, h.expiration, rfl, rfl⟩
  have hget := parseDefinitions_cons_ok.mpr ⟨_, _, _, h.get, hexpiration, rfl⟩
  have hcondition := parseDefinitions_cons_ok.mpr ⟨_, _, _, h.condition, hget, rfl⟩
  have hbehind := parseDefinitions_cons_ok.mpr ⟨_, _, _, hvalue, hcondition, rfl⟩
  rw [parseCommandArguments_ok, setArgDefs_eq]
  exact ⟨iaa₃, parseDefinitions_cons_ok.mpr ⟨_, _, _, hkey, hbehind, rfl⟩, h.finished⟩

/-- The first free argument that spells the first of the tokens that is spelled. -/
def InputArgArray.firstOf (iaa : InputArgArray) (tokens : List SetToken) : Option ℕ :=
  tokens.findSome? fun token =>
    iaa.unresolved.find? fun i => strEqCi (iaa.text i) (cstr token.word)

theorem NoToken.firstOf {tokens : List SetToken} (h : NoToken iaa tokens) :
    iaa.firstOf tokens = none := by
  apply List.findSome?_eq_none_iff.mpr
  intro token htoken
  apply List.find?_eq_none.mpr
  intro i hi
  simp [h token htoken i hi]

theorem FillsSlot.firstOf {token : SetToken} {before after : List ℕ} {idx : ℕ}
    {operand : Option ℕ} (h : FillsSlot iaa slot token before idx operand after)
    (p : SetToken → Bool) (hp : p token = true) :
    iaa.firstOf (slot.tokens.filter p) = some idx := by
  obtain ⟨skipped, rest, htokens, hskipped⟩ := h.tokens
  have hnone : iaa.firstOf (skipped.filter p) = none := by
    apply NoToken.firstOf
    intro token htoken
    exact hskipped token (List.mem_of_mem_filter htoken)
  have hfound : (iaa.unresolved.find? fun i => strEqCi (iaa.text i) (cstr token.word)) =
      some idx := by
    apply List.find?_eq_some_iff_append.mpr
    refine ⟨h.first.spelled, before, operand.toList ++ after, h.first.split, ?_⟩
    intro i hi
    simp [h.first.first i hi]
  unfold InputArgArray.firstOf at hnone ⊢
  rw [htokens, List.filter_append, List.filter_cons_of_pos hp, List.findSome?_append, hnone,
    List.findSome?_cons, hfound]
  rfl

theorem Leaves.firstOf {token : SetToken} {before after : List ℕ} {idx : ℕ}
    (hfirst : FirstSpelled iaa token.word before idx after)
    (hleaves : Leaves iaa iaa' (before ++ after)) {tokens : List SetToken}
    (hne : ∀ other ∈ tokens, other ≠ token) : iaa'.firstOf tokens = iaa.firstOf tokens := by
  unfold InputArgArray.firstOf
  rw [hleaves.text, hleaves.unresolved, hfirst.split, ← List.head?_filterMap,
    ← List.head?_filterMap]
  apply congrArg List.head?
  apply List.filterMap_congr
  intro other hother
  have hskip : strEqCi (iaa.text idx) (cstr other.word) = false := by
    by_contra hspelled
    exact hne other hother
      (SetToken.word_injective hfirst.spelled (by simpa using hspelled)).symm
  simp [List.find?_append, hskip]

/-- A slot without operands takes the first argument that spells one of its tokens. -/
structure TakesFirst (iaa iaa' : InputArgArray) (slot : SetSlot) : Prop where
  whole : iaa'.Whole
  text : iaa'.text = iaa.text
  mem : ∀ i, i ∈ iaa.unresolved ↔ i ∈ iaa'.unresolved ∨ iaa.firstOf slot.tokens = some i
  gone : ∀ i ∈ iaa'.unresolved, iaa.firstOf slot.tokens ≠ some i
  others : ∀ tokens : List SetToken, (∀ token ∈ tokens, token.slot ≠ slot) →
    iaa'.firstOf tokens = iaa.firstOf tokens

theorem takesFirst (hslot : slot ≠ .expiration) (hwhole : iaa.Whole)
    (hparse : parseCommandArgument slot.argDef iaa = .ok (.ok arg, iaa')) :
    TakesFirst iaa iaa' slot ∧ arg.operandPositions = [] := by
  rcases parseSlot_ok hwhole hparse with ⟨hnone, rfl, hleaves⟩ |
    ⟨token, before, idx, operand, after, value, hfills, hread, rfl, hleaves⟩
  · refine ⟨⟨hleaves.whole, hleaves.text, ?_, ?_, ?_⟩, rfl⟩
    · simp [hleaves.unresolved, hnone.firstOf]
    · simp [hnone.firstOf]
    · intro tokens _
      unfold InputArgArray.firstOf
      rw [hleaves.text, hleaves.unresolved]
  · have htoken := hfills.token_slot
    have hpure : operand = none := by
      have hsome := hfills.operand_isSome
      rw [← Option.not_isSome_iff_eq_none, hsome]
      subst htoken
      cases token <;> first | decide | exact absurd rfl hslot
    subst hpure
    have hidx : iaa.firstOf slot.tokens = some idx := by
      have hfirst := hfills.firstOf (fun _ => true) rfl
      rwa [List.filter_true] at hfirst
    have hnodup := nodup_unresolved iaa
    rw [hfills.first.split, Option.toList_none, List.nil_append, List.nodup_middle,
      List.nodup_cons] at hnodup
    refine ⟨⟨hleaves.whole, hleaves.text, ?_, ?_, ?_⟩, rfl⟩
    · intro i
      simp only [hfills.first.split, hleaves.unresolved, hidx, Option.toList_none, List.nil_append,
        List.mem_append, List.mem_cons, Option.some.injEq]
      constructor
      · rintro (h | rfl | h)
        · exact Or.inl (Or.inl h)
        · exact Or.inr rfl
        · exact Or.inl (Or.inr h)
      · rintro ((h | h) | rfl)
        · exact Or.inl h
        · exact Or.inr (Or.inr h)
        · exact Or.inr (Or.inl rfl)
    · intro i hi he
      rw [hidx] at he
      cases he
      exact hnodup.1 (hleaves.unresolved ▸ hi)
    · intro tokens hne
      apply Leaves.firstOf hfills.first hleaves
      rintro other hother rfl
      exact hne other hother htoken

/-- The argument right behind the token of an expiration is neither the one that the condition is
taken from nor the one that `GET` is taken from. -/
def OperandKept (args : List (List UInt8)) : Prop :=
  let start := ((iaaCreate args).resolve 0).resolve 1
  ∀ idx ∈ start.firstOf [.ex, .px, .exat, .pxat],
    start.firstOf [.nx, .xx] ≠ some (idx + 1) ∧ start.firstOf [.get] ≠ some (idx + 1)
  deriving Decidable

/-- What the arguments of an accepted SET should be: a key, a value and whole clauses, each slot
filled at most once, with the parsed arguments standing for the command that these make up and
every operand read from right behind its token. -/
def WholeClauses (args : List (List UInt8)) (parsed : List CommandArg) : Prop :=
  ∃ key value clauses, args = key :: value :: clauses.flatMap SetClause.words ∧
    OneEach clauses ∧ setCommandOf parsed = some (commandOfClauses key value clauses) ∧
    ∀ arg ∈ parsed, arg.Adjacent

theorem adjacent_of_noOperand (h : arg.operandPositions = []) : arg.Adjacent := by
  intro token _ operand hoperand
  rw [h] at hoperand
  cases hoperand

theorem adjacent_of_noToken (h : arg.tokenPositions = []) : arg.Adjacent := by
  intro token htoken
  rw [h] at htoken
  cases htoken

/-- The free argument behind a token is the very next one unless that was taken before. -/
theorem expiration_adjacent_iff {start iaa₁ iaa₂ : InputArgArray} {n : ℕ}
    (hstart : start.unresolved = List.range' 2 n) (hcondition : TakesFirst start iaa₁ .condition)
    (hget : TakesFirst iaa₁ iaa₂ .get)
    (hparse : parseCommandArgument SetSlot.expiration.argDef iaa₂ = .ok (.ok arg, iaa')) :
    arg.Adjacent ↔ ∀ idx ∈ start.firstOf [.ex, .px, .exat, .pxat],
      start.firstOf [.nx, .xx] ≠ some (idx + 1) ∧ start.firstOf [.get] ≠ some (idx + 1) := by
  have hfirst : start.firstOf [.ex, .px, .exat, .pxat] =
      iaa₂.firstOf [.ex, .px, .exat, .pxat] := by
    rw [hget.others _ (by decide), hcondition.others _ (by decide)]
  have hgetFirst : start.firstOf [.get] = iaa₁.firstOf SetSlot.get.tokens :=
    (hcondition.others _ (by decide)).symm
  rw [hfirst, hgetFirst]
  rcases parseSlot_ok hget.whole hparse with ⟨hnone, rfl, -⟩ |
    ⟨token, before, idx, operand, after, value, hfills, -, rfl, -⟩
  · have hopen : iaa₂.firstOf [.ex, .px, .exat, .pxat] = none := by
      apply NoToken.firstOf
      intro token htoken
      exact hnone token (List.mem_of_mem_dropLast htoken)
    rw [hopen]
    simp [CommandArg.Adjacent, CommandArgDefinition.absent]
  · cases operand with
    | none =>
      obtain ⟨skipped, rest, htokens, hskipped⟩ := hfills.tokens
      have hlast : token = .keepttl := by
        have hmem : token ∈ SetSlot.expiration.tokens := by rw [htokens]; simp
        have hpure := hfills.operand_isSome
        revert hmem hpure
        cases token <;> decide
      subst hlast
      have hsplit : [.ex, .px, .exat, .pxat] ++ SetToken.keepttl :: [] =
          skipped ++ SetToken.keepttl :: rest := htokens
      rw [List.append_cons_inj_of_notMem (by decide) (by decide)] at hsplit
      rw [hsplit.1, hskipped.firstOf]
      simp [CommandArg.Adjacent]
    | some operand =>
      have hidx : iaa₂.firstOf [.ex, .px, .exat, .pxat] = some idx :=
        hfills.firstOf SetToken.takesOperand hfills.operand_isSome.symm
      have hsplit : iaa₂.unresolved = before ++ idx :: operand :: after := hfills.first.split
      have hsorted := sorted_unresolved iaa₂
      rw [hsplit, List.pairwise_append, List.pairwise_cons, List.pairwise_cons] at hsorted
      obtain ⟨-, ⟨hidxLt, hoperandLt, -⟩, hbefore⟩ := hsorted
      have hlt : idx < operand := hidxLt operand List.mem_cons_self
      have hoperand : operand ∈ iaa₂.unresolved := by rw [hsplit]; simp
      have hstay : ∀ i ∈ iaa₂.unresolved, i ∈ iaa₁.unresolved ∧ i ∈ start.unresolved := by
        intro i hi
        have hi₁ := (hget.mem i).mpr (Or.inl hi)
        exact ⟨hi₁, (hcondition.mem i).mpr (Or.inl hi₁)⟩
      simp only [CommandArg.Adjacent, List.mem_singleton, Option.toList_some, forall_eq, hidx,
        Option.mem_def, Option.some.injEq, forall_eq']
      constructor
      · rintro rfl
        exact ⟨hcondition.gone _ (hstay _ hoperand).1, hget.gone _ hoperand⟩
      · rintro ⟨hneCondition, hneGet⟩
        have hrange : idx + 1 ∈ start.unresolved := by
          have hhigh := (hstay operand hoperand).2
          have hlow := (hstay idx (by rw [hsplit]; simp)).2
          rw [hstart, List.mem_range'_1] at hhigh hlow ⊢
          omega
        have hnext : idx + 1 ∈ iaa₂.unresolved :=
          ((hget.mem _).mp (((hcondition.mem _).mp hrange).resolve_right hneCondition)).resolve_right
            hneGet
        rw [hsplit, List.mem_append, List.mem_cons, List.mem_cons] at hnext
        rcases hnext with h | h | h | h
        · have hless := hbefore _ h idx List.mem_cons_self
          omega
        · omega
        · exact h.symm
        · have hless := hoperandLt _ h
          omega

theorem ParsedSlots.reads {start iaa₁ iaa₂ iaa₃ : InputArgArray}
    {condition get expiration : CommandArg} (hwhole : start.Whole)
    (h : ParsedSlots start iaa₁ iaa₂ iaa₃ condition get expiration)
    (hadjacent : expiration.Adjacent) :
    ∃ clauses, Reads start clauses ∧ OneEach clauses ∧
      slotMatched .condition clauses = condition.matched ∧
      slotMatched .get clauses = get.matched ∧
      slotMatched .expiration clauses = expiration.matched := by
  obtain ⟨hfirst₁, hnone₁⟩ := takesFirst (by decide) hwhole h.condition
  obtain ⟨hfirst₂, hnone₂⟩ := takesFirst (by decide) hfirst₁.whole h.get
  have hreads₃ : Reads iaa₃ [] := ⟨[], h.finished, rfl, fun _ hmem => absurd hmem List.not_mem_nil⟩
  obtain ⟨clauses₂, hreads₂, hmatched₃, hone₃, hkeep₃⟩ :=
    hreads₃.fill hfirst₂.whole h.expiration hadjacent rfl
  obtain ⟨clauses₁, hreads₁, hmatched₂, hone₂, hkeep₂⟩ :=
    hreads₂.fill hfirst₁.whole h.get (adjacent_of_noOperand hnone₂) (hkeep₃ .get (by decide))
  have hopen : clauses₁.filter (SetClause.fills .condition) = [] :=
    (hkeep₂ .condition (by decide)).trans (hkeep₃ .condition (by decide))
  obtain ⟨clauses, hreads, hmatched₁, hone₁, hkeep₁⟩ :=
    hreads₁.fill hwhole h.condition (adjacent_of_noOperand hnone₁) hopen
  have hget := hkeep₁ .get (by decide)
  have hexpiration := (hkeep₁ .expiration (by decide)).trans (hkeep₂ .expiration (by decide))
  refine ⟨clauses, hreads, ?_, hmatched₁, ?_, ?_⟩
  · intro slot
    cases slot with
    | condition => exact hone₁
    | get => rwa [hget]
    | expiration => rwa [hexpiration]
  · rw [← hmatched₂, slotMatched, slotMatched, ← List.head?_filter, ← List.head?_filter, hget]
  · rw [← hmatched₃, slotMatched, slotMatched, ← List.head?_filter, ← List.head?_filter,
      hexpiration]

/-- The arguments of an accepted SET are whole clauses exactly when the one right behind the token
of the expiration was not taken for another slot. -/
theorem setArguments_whole_iff {args : List (List UInt8)} {parsed : List CommandArg}
    (h : parseCommandArguments setArgDefs args = .ok (.ok parsed)) :
    WholeClauses args parsed ↔ OperandKept args := by
  obtain ⟨key, value, words, condition, get, expiration, iaa₁, iaa₂, iaa₃, rfl, rfl, hslots⟩ :=
    parseSet_ok h
  have hwhole := behindValue_whole key value words
  obtain ⟨hfirst₁, hnone₁⟩ := takesFirst (by decide) hwhole hslots.condition
  obtain ⟨hfirst₂, hnone₂⟩ := takesFirst (by decide) hfirst₁.whole hslots.get
  have hiff := expiration_adjacent_iff (behindValue_unresolved key value words) hfirst₁ hfirst₂
    hslots.expiration
  constructor
  · rintro ⟨-, -, -, -, -, -, hadjacent⟩
    exact hiff.mp (hadjacent expiration (by simp))
  · intro hkept
    have hadjacent := hiff.mpr hkept
    obtain ⟨clauses, hreads, hone, hcondition, hget, hexpiration⟩ := hslots.reads hwhole hadjacent
    refine ⟨key, value, clauses, ?_, hone, ?_, ?_⟩
    · rw [← hreads.texts, behindValue_texts]
    · simp only [setCommandOf, commandOfClauses, hcondition, hget, hexpiration]
      rfl
    · simp only [List.forall_mem_cons]
      exact ⟨adjacent_of_noToken rfl, adjacent_of_noToken rfl, adjacent_of_noOperand hnone₁,
        adjacent_of_noOperand hnone₂, hadjacent, fun _ hmem => absurd hmem List.not_mem_nil⟩

def acceptedSet (args : List (List UInt8)) : Option (List CommandArg) :=
  match parseCommandArguments setArgDefs args with
  | .ok (.ok parsed) => some parsed
  | _ => none

theorem acceptedSet_eq {args : List (List UInt8)} {parsed : List CommandArg}
    (h : acceptedSet args = some parsed) :
    parseCommandArguments setArgDefs args = .ok (.ok parsed) := by
  unfold acceptedSet at h
  split at h
  · rename_i he
    cases h
    exact he
  · cases h

/-- The equivalence for `SET k v GET EX 10`. -/
theorem setArguments_whole_iff_get :
    let args := [cstr "k", cstr "v", cstr "GET", cstr "EX", cstr "10"]
    ∃ parsed, acceptedSet args = some parsed ∧ (WholeClauses args parsed ↔ OperandKept args) := by
  intro args
  obtain ⟨parsed, hparsed⟩ := Option.isSome_iff_exists.mp
    (show (acceptedSet args).isSome = true by decide +kernel)
  exact ⟨parsed, hparsed, setArguments_whole_iff (acceptedSet_eq hparsed)⟩

/-- `SET k v EX NX 10` is accepted: the number is read across the condition. -/
theorem setArguments_not_whole :
    ¬ ∀ args parsed, parseCommandArguments setArgDefs args = .ok (.ok parsed) →
      WholeClauses args parsed := by
  intro h
  let args := [cstr "k", cstr "v", cstr "EX", cstr "NX", cstr "10"]
  have hsplit : (acceptedSet args).any
      (fun parsed => !decide (∀ arg ∈ parsed, arg.Adjacent)) = true := by
    decide +kernel
  cases hparsed : acceptedSet args with
  | none =>
    rw [hparsed] at hsplit
    cases hsplit
  | some parsed =>
    rw [hparsed, Option.any_some, Bool.not_eq_true', decide_eq_false_iff_not] at hsplit
    obtain ⟨-, -, -, -, -, -, hadjacent⟩ := h args parsed (acceptedSet_eq hparsed)
    exact hsplit hadjacent

end Redic
