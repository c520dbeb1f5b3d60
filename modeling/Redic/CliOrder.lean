import Mathlib.Data.List.Perm.Basic
import Redic.Cli
import Redic.ParseInt64

/-! # Does the order of the options matter

The arguments are groups, a flag and what belongs to it, and the groups may come in any order. A
definition that takes as many arguments as every group before it rotates whole groups, and so does
any definition when all groups before it are single flags. A boolean that passes a flag with a
value tears the two apart.
-/
namespace Redic
open DecimalText Int64Range SwapForward

/-- What the argument behind a flag of this type means; a boolean has none. -/
inductive CLIOptionType.Denotes : CLIOptionType → Option (List UInt8) → CLIValue → Prop
  | bool : Denotes .bool none (.bool true)
  | string (text : List UInt8) : Denotes .string (some text) (.string text)
  | integer {text : List UInt8} {num : Int64} (h : DecimalInteger text num.toInt) :
      Denotes .integer (some text) (.integer num)

structure CLIGroup (optDefs : List CLIOptionDefinition) where
  definition : CLIOptionDefinition
  flag : List UInt8
  text : Option (List UInt8)
  value : CLIValue
  defined : definition ∈ optDefs
  spelled : definition.Spells flag
  denotes : definition.type.Denotes text value
  plain : ∀ arg ∈ text, ∀ other ∈ optDefs, ¬ other.Spells arg

def DistinctOptions (optDefs : List CLIOptionDefinition) : Prop :=
  optDefs.Pairwise CLIOptionDefinition.Apart
  deriving Decidable

section Groups
variable {optDefs : List CLIOptionDefinition}

def CLIGroup.args (group : CLIGroup optDefs) : List (List UInt8) :=
  group.flag :: group.text.toList

def assigned (groups : List (CLIGroup optDefs)) (definition : CLIOptionDefinition) : CLIOption :=
  ⟨definition.isOptional,
    (groups.find? fun group => group.definition = definition).map CLIGroup.value⟩

/-- In every order of the groups each option gets the value that stands behind its flag. -/
def OrderFree (optDefs : List CLIOptionDefinition) (groups : List (CLIGroup optDefs)) : Prop :=
  ∀ ordering : List (CLIGroup optDefs), ordering.Perm groups →
    cliParseOpts optDefs (ordering.flatMap CLIGroup.args) =
      .ok (some (optDefs.map (assigned groups)))

/-- The definitions that the groups give, in the order of the definitions. -/
def given (groups : List (CLIGroup optDefs)) (optDefs : List CLIOptionDefinition) :
    List CLIOptionDefinition :=
  optDefs.filter fun definition => definition ∈ groups.map CLIGroup.definition

/-- At most one group for each definition, and one for each that is not optional. -/
structure WellGiven (optDefs : List CLIOptionDefinition) (groups : List (CLIGroup optDefs)) :
    Prop where
  distinct : DistinctOptions optDefs
  once : (groups.map CLIGroup.definition).Nodup
  required : ∀ definition ∈ optDefs, definition.isOptional = false →
    definition ∈ groups.map CLIGroup.definition

end Groups

theorem DecimalText.DecimalInteger.parseLong_eq {text : List UInt8} {num : Int64}
    (h : DecimalInteger text num.toInt) : parseLong text = some num := by
  have hzero : isDigit 0 = false := by decide
  have hread := strtoll_fits h.numeralValue_eq (inInt64_toInt num) hzero []
  obtain ⟨_, sign, ds, _, hdigits, rfl, _⟩ := h
  have hpos := List.length_pos_iff.mpr hdigits.ne_nil
  have hend : (sign ++ ds).length ≠ 0 := by
    rw [List.length_append]
    omega
  rw [parseLong, hread]
  dsimp only
  rw [if_neg hend, Int64.ofInt_toInt]

theorem CLIOptionType.Denotes.read_eq {type : CLIOptionType} {text : Option (List UInt8)}
    {value : CLIValue} (h : type.Denotes text value) (rest : List (List UInt8)) :
    cliReadValue type (text.toList ++ rest).head? =
      .ok (some (value, text.toList.length + 1)) := by
  cases h with
  | bool => rfl
  | string text => rfl
  | integer h =>
    change Except.ok ((parseLong _).map fun integer => (CLIValue.integer integer, 2)) = _
    rw [h.parseLong_eq]
    rfl

theorem CLIOptionType.Denotes.length_eq {type : CLIOptionType} {text : Option (List UInt8)}
    {value : CLIValue} (h : type.Denotes text value) :
    text.toList.length = if type = .bool then 0 else 1 := by
  cases h <;> rfl

section Step
variable {optDefs : List CLIOptionDefinition} {groups : List (CLIGroup optDefs)}

instance : Std.Symm CLIOptionDefinition.Apart where
  symm _ _ h :=
    ⟨h.name_ne.symm, fun shorthand hother hself => h.shorthand_ne shorthand hself hother⟩

theorem DistinctOptions.nodup (h : DistinctOptions optDefs) : optDefs.Nodup :=
  h.imp fun hapart heq => hapart.name_ne (congrArg CLIOptionDefinition.name heq)

theorem CLIGroup.args_length (group : CLIGroup optDefs) :
    group.args.length = if group.definition.type = .bool then 1 else 2 := by
  rw [CLIGroup.args, List.length_cons, group.denotes.length_eq]
  split <;> rfl

theorem CLIGroup.text_isMatch {group : CLIGroup optDefs} {other : CLIOptionDefinition}
    (hother : other ∈ optDefs) : ∀ word ∈ group.text.toList, cliIsMatch other word = false := by
  intro word hword
  rw [← Bool.not_eq_true, cliIsMatch_iff]
  exact group.plain word (Option.mem_toList.mp hword) other hother

theorem CLIGroup.args_isMatch (h : DistinctOptions optDefs) {group : CLIGroup optDefs}
    {other : CLIOptionDefinition} (hother : other ∈ optDefs) (hne : group.definition ≠ other) :
    ∀ word ∈ group.args, cliIsMatch other word = false := by
  refine List.forall_mem_cons.mpr ⟨?_, text_isMatch hother⟩
  have hapart := List.Pairwise.forall h group.defined hother hne
  rw [← Bool.not_eq_true, cliIsMatch_iff]
  exact hapart.not_spells group.spelled

theorem flatMap_isMatch (h : DistinctOptions optDefs) {front : List (CLIGroup optDefs)}
    {other : CLIOptionDefinition} (hother : other ∈ optDefs)
    (hne : ∀ group ∈ front, group.definition ≠ other) :
    ∀ word ∈ front.flatMap CLIGroup.args, cliIsMatch other word = false := by
  intro word hword
  obtain ⟨group, hgroup, hargs⟩ := List.mem_flatMap.mp hword
  exact CLIGroup.args_isMatch h hother (hne group hgroup) word hargs

theorem cliTakeOpt_group (h : DistinctOptions optDefs) {front back : List (CLIGroup optDefs)}
    {group : CLIGroup optDefs} (hne : ∀ other ∈ front, other.definition ≠ group.definition) :
    cliTakeOpt group.definition ((front ++ group :: back).flatMap CLIGroup.args) =
      .ok (some (⟨group.definition.isOptional, some group.value⟩, group.args,
        (front.flatMap CLIGroup.args).rotate group.args.length ++ back.flatMap CLIGroup.args)) := by
  have hwords : (front ++ group :: back).flatMap CLIGroup.args = front.flatMap CLIGroup.args ++
      group.flag :: (group.text.toList ++ back.flatMap CLIGroup.args) := by
    rw [List.flatMap_append, List.flatMap_cons, CLIGroup.args, List.cons_append]
  have hlength : group.args.length = group.text.toList.length + 1 := List.length_cons
  rw [hwords, cliTakeOpt_found (flatMap_isMatch h group.defined hne)
    (cliIsMatch_iff.mpr group.spelled), group.denotes.read_eq, hlength]
  simp only [Except.map, Option.map_some, List.take_succ_cons, List.take_left,
    List.drop_succ_cons, List.drop_left]
  rfl

theorem WellGiven.eq_of_definition (h : WellGiven optDefs groups) {group other : CLIGroup optDefs}
    (hgroup : group ∈ groups) (hother : other ∈ groups)
    (heq : group.definition = other.definition) : group = other :=
  List.inj_on_of_nodup_map h.once hgroup hother heq

theorem WellGiven.assigned_eq (h : WellGiven optDefs groups) {group : CLIGroup optDefs}
    (hgroup : group ∈ groups) : assigned groups group.definition =
      ⟨group.definition.isOptional, some group.value⟩ := by
  have hfind : groups.find? (fun other => other.definition = group.definition) = some group := by
    cases hfound : groups.find? (fun other => other.definition = group.definition) with
    | none => simpa using List.find?_eq_none.mp hfound group hgroup
    | some other =>
      have heq : other.definition = group.definition := by simpa using List.find?_some hfound
      rw [h.eq_of_definition (List.mem_of_find?_eq_some hfound) hgroup heq]
  rw [assigned, hfind, Option.map_some]

theorem assigned_eq_none {definition : CLIOptionDefinition}
    (h : definition ∉ groups.map CLIGroup.definition) :
    assigned groups definition = ⟨definition.isOptional, none⟩ := by
  have hfind : groups.find? (fun group => group.definition = definition) = none := by
    rw [List.find?_eq_none]
    intro group hgroup heq
    exact h (List.mem_map.mpr ⟨group, hgroup, by simpa using heq⟩)
  rw [assigned, hfind, Option.map_none]

end Step

/-- All of them take a value, or none but the first does. -/
def Aligned (optDefs : List CLIOptionDefinition) : Prop :=
  (∀ definition ∈ optDefs, definition.type ≠ .bool) ∨
    ∀ definition ∈ optDefs.tail, definition.type = .bool
  deriving Decidable

/-- The groups of the definitions that are still to come, in some order. -/
structure Pending {optDefs : List CLIOptionDefinition} (groups : List (CLIGroup optDefs))
    (rest : List CLIOptionDefinition) (pending : List (CLIGroup optDefs)) : Prop where
  nodup : pending.Nodup
  mem_iff : ∀ group, group ∈ pending ↔ group ∈ groups ∧ group.definition ∈ rest

section Whole
variable {optDefs rest : List CLIOptionDefinition} {groups pending : List (CLIGroup optDefs)}
  {definition : CLIOptionDefinition}

theorem Aligned.of_cons (h : Aligned (definition :: rest)) : Aligned rest := by
  rcases h with hvalued | hbool
  · exact Or.inl (List.forall_mem_cons.mp hvalued).2
  · exact Or.inr fun other hother => hbool other (List.mem_of_mem_tail hother)

theorem Aligned.rotate {group : CLIGroup optDefs} (h : Aligned (group.definition :: rest))
    {front : List (CLIGroup optDefs)} (hfront : ∀ other ∈ front, other.definition ∈ rest) :
    ∃ front' : List (CLIGroup optDefs), front'.Perm front ∧
      (front.flatMap CLIGroup.args).rotate group.args.length = front'.flatMap CLIGroup.args := by
  rcases h with hvalued | hbool
  · -- every group in front has the size of the one taken: the first of them goes to the end
    obtain ⟨hgroup, hrest⟩ := List.forall_mem_cons.mp hvalued
    have hsize : ∀ other ∈ front, other.args.length = 2 := fun other hother => by
      rw [other.args_length, if_neg (hrest _ (hfront other hother))]
    have hrotate := rotate_flatMap hsize 1
    refine ⟨front.rotate 1, List.rotate_perm front 1, ?_⟩
    rwa [group.args_length, if_neg hgroup]
  · -- only single flags stand in front, and they may be rotated at will
    have hsize : ∀ other ∈ front, other.args.length = 1 := fun other hother => by
      rw [other.args_length, if_pos (hbool _ (hfront other hother))]
    have hrotate := rotate_flatMap hsize group.args.length
    rw [Nat.mul_one] at hrotate
    exact ⟨_, List.rotate_perm front _, hrotate⟩

theorem WellGiven.take_absent (h : WellGiven optDefs groups) (hdefinition : definition ∈ optDefs)
    (habsent : definition ∉ groups.map CLIGroup.definition)
    (hsub : ∀ group ∈ pending, group ∈ groups) :
    cliTakeOpts (definition :: rest) (pending.flatMap CLIGroup.args) =
      (cliTakeOpts rest (pending.flatMap CLIGroup.args)).map
        (Option.map (assigned groups definition :: ·)) := by
  have hne : ∀ group ∈ pending, group.definition ≠ definition := fun group hgroup heq =>
    habsent (List.mem_map.mpr ⟨group, hsub group hgroup, heq⟩)
  have hoptional : definition.isOptional = true := by
    cases hrequired : definition.isOptional with
    | true => rfl
    | false => exact absurd (h.required definition hdefinition hrequired) habsent
  rw [cliTakeOpts, cliTakeOpt_absent (flatMap_isMatch h.distinct hdefinition hne),
    assigned_eq_none habsent, hoptional, if_pos rfl]

theorem WellGiven.take_given (h : WellGiven optDefs groups) {group : CLIGroup optDefs}
    (hgroup : group ∈ groups) {front back : List (CLIGroup optDefs)}
    (hne : ∀ other ∈ front, other.definition ≠ group.definition) :
    cliTakeOpts (group.definition :: rest) ((front ++ group :: back).flatMap CLIGroup.args) =
      (cliTakeOpts rest ((front.flatMap CLIGroup.args).rotate group.args.length ++
        back.flatMap CLIGroup.args)).map
          (Option.map (assigned groups group.definition :: ·)) := by
  rw [cliTakeOpts, cliTakeOpt_group h.distinct hne, h.assigned_eq hgroup]

theorem Pending.split (h : WellGiven optDefs groups) (hnodup : (definition :: rest).Nodup)
    (hpending : Pending groups (definition :: rest) pending) {group : CLIGroup optDefs}
    (hgroup : group ∈ groups) (hdefinition : group.definition = definition) :
    ∃ front back, pending = front ++ group :: back ∧
      (∀ other ∈ front, other.definition ∈ rest) ∧ Pending groups rest (front ++ back) := by
  have hmem : group ∈ pending :=
    (hpending.mem_iff group).mpr ⟨hgroup, hdefinition ▸ List.mem_cons_self⟩
  obtain ⟨front, back, rfl⟩ := List.append_of_mem hmem
  obtain ⟨hnot, hothers⟩ := List.nodup_cons.mp (List.nodup_middle.mp hpending.nodup)
  have hiff : ∀ other, other ∈ front ++ back ↔ other ∈ groups ∧ other.definition ∈ rest := by
    intro other
    have hmiddle : other ∈ front ++ group :: back ↔ other = group ∨ other ∈ front ++ back := by
      rw [List.perm_middle.mem_iff, List.mem_cons]
    have hother := hpending.mem_iff other
    rw [hmiddle, List.mem_cons] at hother
    constructor
    · intro hin
      obtain ⟨hgroups, hdef | hrest⟩ := hother.mp (Or.inr hin)
      · have heq := h.eq_of_definition hgroups hgroup (hdef.trans hdefinition.symm)
        exact absurd (heq ▸ hin) hnot
      · exact ⟨hgroups, hrest⟩
    · rintro ⟨hgroups, hrest⟩
      rcases hother.mpr ⟨hgroups, Or.inr hrest⟩ with rfl | hin
      · exact absurd (hdefinition ▸ hrest) (List.nodup_cons.mp hnodup).1
      · exact hin
  exact ⟨front, back, rfl,
    fun other hfront => ((hiff other).mp (List.mem_append_left _ hfront)).2, hothers, hiff⟩

theorem Pending.perm {other : List (CLIGroup optDefs)} (h : Pending groups rest pending)
    (hperm : other.Perm pending) : Pending groups rest other where
  nodup := hperm.nodup_iff.mpr h.nodup
  mem_iff group := hperm.mem_iff.trans (h.mem_iff group)

theorem Pending.skip (h : Pending groups (definition :: rest) pending)
    (habsent : definition ∉ groups.map CLIGroup.definition) : Pending groups rest pending where
  nodup := h.nodup
  mem_iff group := by
    rw [h.mem_iff group, List.mem_cons]
    refine and_congr_right fun hgroup => ⟨?_, Or.inr⟩
    rintro (heq | hrest)
    · exact absurd (List.mem_map.mpr ⟨group, hgroup, heq⟩) habsent
    · exact hrest

/-- Aligned definitions keep the groups whole, so that each finds its own. -/
theorem WellGiven.take_aligned (h : WellGiven optDefs groups) (hrest : rest.Sublist optDefs)
    (hpending : Pending groups rest pending) (haligned : Aligned (given groups rest)) :
    cliTakeOpts rest (pending.flatMap CLIGroup.args) = .ok (some (rest.map (assigned groups))) := by
  induction rest generalizing pending with
  | nil => rfl
  | cons definition rest ih =>
    have hdefined : definition ∈ optDefs := hrest.subset List.mem_cons_self
    have hnodup := hrest.nodup h.distinct.nodup
    have htail := (List.sublist_cons_self definition rest).trans hrest
    by_cases hgiven : definition ∈ groups.map CLIGroup.definition
    · obtain ⟨group, hgroup, rfl⟩ := List.mem_map.mp hgiven
      obtain ⟨front, back, rfl, hfront, hothers⟩ := hpending.split h hnodup hgroup rfl
      rw [given, List.filter_cons_of_pos (by simpa using hgiven)] at haligned
      have hne : ∀ other ∈ front, other.definition ≠ group.definition := fun other hother heq =>
        (List.nodup_cons.mp hnodup).1 (heq ▸ hfront other hother)
      have hfrontGiven : ∀ other ∈ front, other.definition ∈ given groups rest := by
        intro other hother
        have hin := (hothers.mem_iff other).mp (List.mem_append_left _ hother)
        exact List.mem_filter.mpr ⟨hin.2, by simpa using ⟨other, hin.1, rfl⟩⟩
      obtain ⟨front', hperm, hrotate⟩ := haligned.rotate hfrontGiven
      rw [h.take_given hgroup hne, hrotate, ← List.flatMap_append,
        ih htail (hothers.perm (hperm.append_right back)) haligned.of_cons]
      rfl
    · rw [given, List.filter_cons_of_neg (by simpa using hgiven)] at haligned
      have hsub : ∀ group ∈ pending, group ∈ groups := fun group hgroup =>
        ((hpending.mem_iff group).mp hgroup).1
      rw [h.take_absent hdefined hgiven hsub, ih htail (hpending.skip hgiven) haligned]
      rfl

/-- Groups in the order of their definitions are never rotated. -/
theorem WellGiven.take_inOrder (h : WellGiven optDefs groups) (hrest : rest.Sublist optDefs)
    (hsub : ∀ group ∈ pending, group ∈ groups)
    (horder : pending.map CLIGroup.definition = given groups rest) :
    cliTakeOpts rest (pending.flatMap CLIGroup.args) = .ok (some (rest.map (assigned groups))) := by
  induction rest generalizing pending with
  | nil => rfl
  | cons definition rest ih =>
    have hdefined : definition ∈ optDefs := hrest.subset List.mem_cons_self
    have htail := (List.sublist_cons_self definition rest).trans hrest
    by_cases hgiven : definition ∈ groups.map CLIGroup.definition
    · rw [given, List.filter_cons_of_pos (by simpa using hgiven)] at horder
      obtain ⟨group, others, rfl, rfl, hothers⟩ := List.map_eq_cons_iff.mp horder
      obtain ⟨hgroup, hsubOthers⟩ := List.forall_mem_cons.mp hsub
      have hne : ∀ other ∈ ([] : List (CLIGroup optDefs)), other.definition ≠ group.definition :=
        fun _ hother => absurd hother List.not_mem_nil
      rw [← List.nil_append (group :: others), h.take_given hgroup hne, List.flatMap_nil,
        List.rotate_nil, List.nil_append, ih htail hsubOthers hothers]
      rfl
    · rw [given, List.filter_cons_of_neg (by simpa using hgiven)] at horder
      rw [h.take_absent hdefined hgiven hsub, ih htail hsub horder]
      rfl

end Whole

/-- Whatever the parse yields, the definition is left without a value. -/
def Loses (lost : CLIOptionDefinition) (rest : List CLIOptionDefinition)
    (words : List (List UInt8)) : Prop :=
  ∀ options, cliTakeOpts rest words = .ok (some options) →
    (lost, ⟨lost.isOptional, none⟩) ∈ rest.zip options

section Torn
variable {lost definition : CLIOptionDefinition} {rest : List CLIOptionDefinition}
  {words left taken : List (List UInt8)} {option : CLIOption}

theorem cliTakeOpts_cons {options : List CLIOption}
    (h : cliTakeOpts (definition :: rest) words = .ok (some options)) :
    ∃ option taken left others, cliTakeOpt definition words = .ok (some (option, taken, left)) ∧
      cliTakeOpts rest left = .ok (some others) ∧ options = option :: others := by
  rw [cliTakeOpts] at h
  cases hstep : cliTakeOpt definition words with
  | error stop =>
    rw [hstep] at h
    cases h
  | ok step =>
    cases step with
    | none =>
      rw [hstep] at h
      cases h
    | some step =>
      obtain ⟨option, taken, left⟩ := step
      simp only [hstep] at h
      cases hrest : cliTakeOpts rest left with
      | error stop =>
        rw [hrest] at h
        cases h
      | ok read =>
        rw [hrest] at h
        obtain ⟨others, rfl, rfl⟩ := Option.map_eq_some_iff.mp (Except.ok.inj h)
        exact ⟨option, taken, left, others, rfl, hrest, rfl⟩

theorem cliTakeOpt_eq_ok (h : cliTakeOpt definition words = .ok (some (option, taken, left))) :
    (definition.isOptional = true ∧ option = ⟨true, none⟩ ∧ left = words ∧
        ∀ word ∈ words, cliIsMatch definition word = false) ∨
      ∃ front flag behind value consumedArgs, words = front ++ flag :: behind ∧
        cliIsMatch definition flag = true ∧
        cliReadValue definition.type behind.head? = .ok (some (value, consumedArgs)) ∧
        left = front.rotate consumedArgs ++ (flag :: behind).drop consumedArgs := by
  rcases words_cases definition words with hnone | ⟨front, flag, behind, rfl, hfront, hflag⟩
  · rw [cliTakeOpt_absent hnone] at h
    have hstep := Except.ok.inj h
    split at hstep
    · rename_i hoptional
      cases hstep
      exact Or.inl ⟨hoptional, rfl, rfl, hnone⟩
    · cases hstep
  · rw [cliTakeOpt_found hfront hflag] at h
    cases hread : cliReadValue definition.type behind.head? with
    | error stop =>
      rw [hread] at h
      cases h
    | ok read =>
      rw [hread] at h
      obtain ⟨⟨value, consumedArgs⟩, rfl, hstep⟩ := Option.map_eq_some_iff.mp (Except.ok.inj h)
      cases hstep
      exact Or.inr ⟨front, flag, behind, value, consumedArgs, rfl, hflag, hread, rfl⟩

/-- A step moves nothing away from the end: what stands before the last argument has done so. -/
theorem cliTakeOpt_dropLast (h : cliTakeOpt definition words = .ok (some (option, taken, left))) :
    ∀ word ∈ left.dropLast, word ∈ words.dropLast := by
  intro word hword
  rcases cliTakeOpt_eq_ok h with ⟨-, -, rfl, -⟩ |
    ⟨front, flag, behind, value, consumedArgs, rfl, -, -, rfl⟩
  · exact hword
  · rw [List.dropLast_append_cons]
    by_cases hend : (flag :: behind).drop consumedArgs = []
    · rw [hend, List.append_nil] at hword
      exact List.mem_append_left _ (List.mem_rotate.mp (List.mem_of_mem_dropLast hword))
    · rw [List.dropLast_append_of_ne_nil hend] at hword
      rcases List.mem_append.mp hword with hfront | hbehind
      · exact List.mem_append_left _ (List.mem_rotate.mp hfront)
      · refine List.mem_append_right _ ?_
        rw [← List.take_append_drop consumedArgs (flag :: behind),
          List.dropLast_append_of_ne_nil hend]
        exact List.mem_append_right _ hbehind

theorem Loses.cons (h : ∀ option taken left,
    cliTakeOpt definition words = .ok (some (option, taken, left)) → Loses lost rest left) :
    Loses lost (definition :: rest) words := by
  intro options hrun
  obtain ⟨option, taken, left, others, hstep, hrest, rfl⟩ := cliTakeOpts_cons hrun
  exact List.mem_cons_of_mem _ (h option taken left hstep others hrest)

theorem Loses.skip {before : List CLIOptionDefinition}
    (hbefore : ∀ definition ∈ before, ∀ word ∈ words, cliIsMatch definition word = false)
    (h : Loses lost rest words) : Loses lost (before ++ rest) words := by
  induction before with
  | nil => exact h
  | cons definition before ih =>
    obtain ⟨hfirst, hothers⟩ := List.forall_mem_cons.mp hbefore
    refine Loses.cons fun option taken left hstep => ?_
    rcases cliTakeOpt_eq_ok hstep with ⟨-, -, rfl, -⟩ | ⟨front, flag, behind, _, _, rfl, hflag, -⟩
    · exact ih hothers
    · rw [hfirst flag (List.mem_append_right _ List.mem_cons_self)] at hflag
      cases hflag

theorem Loses.of_last (hlost : lost ∈ rest) (hvalued : lost.type ≠ .bool)
    (hlast : ∀ word ∈ words.dropLast, cliIsMatch lost word = false) : Loses lost rest words := by
  induction rest generalizing words with
  | nil => cases hlost
  | cons definition rest ih =>
    by_cases hdefinition : lost = definition
    · subst hdefinition
      intro options hrun
      obtain ⟨option, taken, left, others, hstep, -, rfl⟩ := cliTakeOpts_cons hrun
      rcases cliTakeOpt_eq_ok hstep with ⟨hoptional, rfl, -⟩ |
        ⟨front, flag, behind, value, consumedArgs, rfl, hflag, hread, -⟩
      · rw [hoptional]
        exact List.mem_cons_self
      · rw [List.dropLast_append_cons] at hlast
        cases behind with
        | nil =>
          -- the flag is the last argument: no value can be read
          cases htype : lost.type with
          | bool => exact absurd htype hvalued
          | string | integer | float =>
            rw [htype] at hread
            cases hread
        | cons next behind =>
          rw [hlast flag (List.mem_append_right _ List.mem_cons_self)] at hflag
          cases hflag
    · have hmem := (List.mem_cons.mp hlost).resolve_left hdefinition
      refine Loses.cons fun option taken left hstep => ih hmem fun word hword => ?_
      exact hlast word (cliTakeOpt_dropLast hstep word hword)

end Torn

section Order
variable {optDefs : List CLIOptionDefinition} {groups : List (CLIGroup optDefs)}

theorem exists_perm_cons {α : Type} {list : List α} {a : α} (h : a ∈ list) :
    ∃ others, (a :: others).Perm list := by
  obtain ⟨front, back, rfl⟩ := List.append_of_mem h
  exact ⟨front ++ back, List.perm_middle.symm⟩

/-- The last group is taken first. It rotates a flag away from its value, to the end, when it takes
one argument more than stand before that flag. -/
theorem WellGiven.loses (h : WellGiven optDefs groups) {first lost : CLIGroup optDefs}
    {before others : List (CLIGroup optDefs)} {rest : List CLIOptionDefinition}
    (hperm : (first :: (before ++ lost :: others)).Perm groups)
    (hsize : (before.flatMap CLIGroup.args).length + 1 = first.args.length)
    (hlost : lost.definition ∈ rest) (hvalued : lost.definition.type ≠ .bool) :
    Loses lost.definition (first.definition :: rest)
      ((before ++ lost :: others ++ [first]).flatMap CLIGroup.args) := by
  have honce := (hperm.map CLIGroup.definition).nodup_iff.mpr h.once
  rw [List.map_cons, List.nodup_cons, List.map_append, List.map_cons] at honce
  obtain ⟨hfirst, hothers⟩ := honce
  have hneFirst : ∀ other ∈ before ++ lost :: others, other.definition ≠ first.definition := by
    intro other hother heq
    refine hfirst (heq ▸ ?_)
    rw [← List.map_cons, ← List.map_append]
    exact List.mem_map_of_mem hother
  have hnotLost := (List.nodup_cons.mp (List.nodup_middle.mp hothers)).1
  have hneLost : ∀ other ∈ before ++ others, other.definition ≠ lost.definition := by
    intro other hother heq
    refine hnotLost (heq ▸ ?_)
    rw [← List.map_append]
    exact List.mem_map_of_mem hother
  have hrotate : ((before ++ lost :: others).flatMap CLIGroup.args).rotate first.args.length =
      (lost.text.toList ++ others.flatMap CLIGroup.args ++ before.flatMap CLIGroup.args) ++
        [lost.flag] := by
    have hsplit : (before ++ lost :: others).flatMap CLIGroup.args =
        (before.flatMap CLIGroup.args ++ [lost.flag]) ++
          (lost.text.toList ++ others.flatMap CLIGroup.args) := by
      simp [CLIGroup.args]
    have hlength : (before.flatMap CLIGroup.args ++ [lost.flag]).length = first.args.length := by
      rw [List.length_append, List.length_singleton, hsize]
    rw [hsplit, ← hlength, List.rotate_append_length_eq, List.append_assoc, List.append_assoc,
      List.append_assoc]
  -- the lost flag is now the last argument, and nothing else is an option of its definition
  refine Loses.cons fun option taken left hstep => Loses.of_last hlost hvalued ?_
  rw [cliTakeOpt_group h.distinct hneFirst, hrotate] at hstep
  cases hstep
  rw [List.flatMap_nil, List.append_nil, List.dropLast_concat]
  intro word hword
  rw [List.append_assoc] at hword
  rcases List.mem_append.mp hword with htext | hothers
  · exact CLIGroup.text_isMatch lost.defined word htext
  · refine flatMap_isMatch h.distinct lost.defined hneLost word ?_
    rw [List.flatMap_append]
    exact List.mem_append.mpr (List.mem_append.mp hothers).symm

/-- Such an arrangement exists as soon as there is a boolean: it stands in front of the flag, or is
itself the one that is taken first. -/
theorem exists_arrangement {first lost bool : CLIGroup optDefs} (hfirst : first ∈ groups)
    (hlost : lost ∈ groups) (hne : lost ≠ first) (hvalued : lost.definition.type ≠ .bool)
    (hbool : bool ∈ groups) (htype : bool.definition.type = .bool) :
    ∃ before others, (first :: (before ++ lost :: others)).Perm groups ∧
      (before.flatMap CLIGroup.args).length + 1 = first.args.length := by
  obtain ⟨behind, hbehind⟩ := exists_perm_cons hfirst
  have hlostBehind := (List.mem_cons.mp (hbehind.mem_iff.mpr hlost)).resolve_left hne
  obtain ⟨others, hothers⟩ := exists_perm_cons hlostBehind
  by_cases hfirstType : first.definition.type = .bool
  · refine ⟨[], others, (hothers.cons first).trans hbehind, ?_⟩
    rw [first.args_length, if_pos hfirstType]
    rfl
  · have hneFirst : bool ≠ first := fun heq => hfirstType (heq ▸ htype)
    have hneLost : bool ≠ lost := fun heq => hvalued (heq ▸ htype)
    have hboolBehind := (List.mem_cons.mp (hbehind.mem_iff.mpr hbool)).resolve_left hneFirst
    have hboolOthers := (List.mem_cons.mp (hothers.mem_iff.mpr hboolBehind)).resolve_left hneLost
    obtain ⟨left, hleft⟩ := exists_perm_cons hboolOthers
    have hswap : (bool :: lost :: left).Perm behind :=
      (List.Perm.swap lost bool left).trans ((hleft.cons lost).trans hothers)
    refine ⟨[bool], left, (hswap.cons first).trans hbehind, ?_⟩
    rw [List.flatMap_singleton, bool.args_length, if_pos htype, first.args_length,
      if_neg hfirstType]

theorem WellGiven.exists_torn (h : WellGiven optDefs groups)
    (htorn : ¬ Aligned (given groups optDefs)) : ∃ ordering : List (CLIGroup optDefs),
      ordering.Perm groups ∧ ∃ lost ∈ groups,
        Loses lost.definition optDefs (ordering.flatMap CLIGroup.args) := by
  obtain ⟨hsomeBool, hsomeValued⟩ := not_or.mp htorn
  push Not at hsomeBool hsomeValued
  obtain ⟨boolDef, hboolGiven, hboolType⟩ := hsomeBool
  obtain ⟨lostDef, hlostTail, hvalued⟩ := hsomeValued
  obtain ⟨bool, hbool, rfl⟩ :=
    List.mem_map.mp (of_decide_eq_true (List.mem_filter.mp hboolGiven).2)
  cases hgiven : given groups optDefs with
  | nil =>
    rw [hgiven] at hlostTail
    cases hlostTail
  | cons firstDef others =>
    rw [hgiven] at hlostTail
    obtain ⟨before, after, hdefs, hbefore, hfirstGiven, rfl⟩ := List.filter_eq_cons_iff.mp hgiven
    obtain ⟨hlostAfter, hlostGiven⟩ := List.mem_filter.mp hlostTail
    obtain ⟨first, hfirst, rfl⟩ := List.mem_map.mp (of_decide_eq_true hfirstGiven)
    obtain ⟨lost, hlost, rfl⟩ := List.mem_map.mp (of_decide_eq_true hlostGiven)
    have hnodup := h.distinct.nodup
    rw [hdefs] at hnodup
    have hne : lost ≠ first := by
      rintro rfl
      exact (List.nodup_cons.mp hnodup.of_append_right).1 hlostAfter
    obtain ⟨front, back, hperm, hsize⟩ :=
      exists_arrangement hfirst hlost hne hvalued hbool hboolType
    have hordering : (front ++ lost :: back ++ [first]).Perm groups :=
      (List.perm_append_singleton first _).trans hperm
    refine ⟨_, hordering, lost, hlost, ?_⟩
    have hskip : ∀ definition ∈ before,
        ∀ word ∈ (front ++ lost :: back ++ [first]).flatMap CLIGroup.args,
          cliIsMatch definition word = false := by
      intro definition hdefinition
      have hdefined : definition ∈ optDefs := hdefs ▸ List.mem_append_left _ hdefinition
      refine flatMap_isMatch h.distinct hdefined fun group hgroup heq => ?_
      refine hbefore definition hdefinition (decide_eq_true ?_)
      exact List.mem_map.mpr ⟨group, hordering.mem_iff.mp hgroup, heq⟩
    have hloses := (h.loses hperm hsize hlostAfter hvalued).skip hskip
    rwa [← hdefs] at hloses

/-- Where a group is torn apart its definition goes without the value it was given. -/
theorem WellGiven.not_orderFree (h : WellGiven optDefs groups)
    (htorn : ¬ Aligned (given groups optDefs)) : ¬ OrderFree optDefs groups := by
  obtain ⟨ordering, hperm, lost, hlost, hloses⟩ := h.exists_torn htorn
  intro hfree
  have hrun := hfree ordering hperm
  rw [cliParseOpts_eq_take] at hrun
  have hmem := hloses _ hrun
  rw [← List.map_prod_left_eq_zip] at hmem
  obtain ⟨definition, -, heq⟩ := List.mem_map.mp hmem
  obtain ⟨rfl, hassigned⟩ := Prod.mk.inj heq
  rw [h.assigned_eq hlost] at hassigned
  cases hassigned

/-- In the order of the definitions every option gets its value, whatever the types are. -/
theorem cliParseOpts_inOrder (h : WellGiven optDefs groups)
    (horder : groups.map CLIGroup.definition = given groups optDefs) :
    cliParseOpts optDefs (groups.flatMap CLIGroup.args) =
      .ok (some (optDefs.map (assigned groups))) := by
  rw [cliParseOpts_eq_take]
  exact h.take_inOrder (List.Sublist.refl _) (fun _ hgroup => hgroup) horder

theorem WellGiven.orderFree (h : WellGiven optDefs groups)
    (haligned : Aligned (given groups optDefs)) : OrderFree optDefs groups := by
  intro ordering hperm
  rw [cliParseOpts_eq_take]
  refine h.take_aligned (List.Sublist.refl _) ⟨?_, ?_⟩ haligned
  · exact hperm.nodup_iff.mpr h.once.of_map
  · intro group
    rw [hperm.mem_iff]
    exact ⟨fun hgroup => ⟨hgroup, group.defined⟩, And.left⟩

/-- The order of the groups does not matter exactly when all options given take a value, or all but
the one defined first are booleans. -/
theorem cliParseOpts_orderFree_iff (h : WellGiven optDefs groups) :
    OrderFree optDefs groups ↔ Aligned (given groups optDefs) := by
  constructor
  · intro hfree
    by_contra htorn
    exact h.not_orderFree htorn hfree
  · exact h.orderFree

end Order

instance {definition : CLIOptionDefinition} {arg : List UInt8} :
    Decidable (definition.Spells arg) := decidable_of_iff _ cliIsMatch_iff

/-- The server with a port and a master. -/
def replicaGroups : List (CLIGroup cliOptionDefinitions) :=
  [{ definition := ⟨cstr "port", some (cstr "p"), .integer, true⟩
     flag := cstr "-p"
     text := some (cstr "7000")
     value := .integer 7000
     defined := by decide +kernel
     spelled := by decide +kernel
     denotes := .integer ⟨false, [], cstr "7000", .none, ⟨by decide +kernel, by decide +kernel⟩, rfl,
       by decide +kernel⟩
     plain := by decide +kernel },
   { definition := ⟨cstr "replicaof", some (cstr "r"), .string, true⟩
     flag := cstr "--replicaof"
     text := some (cstr "localhost 6379")
     value := .string (cstr "localhost 6379")
     defined := by decide +kernel
     spelled := by decide +kernel
     denotes := .string _
     plain := by decide +kernel }]

theorem replicaGroups_wellGiven : WellGiven cliOptionDefinitions replicaGroups where
  distinct := by decide +kernel
  once := by decide +kernel
  required := by decide +kernel

theorem cliParseOpts_orderFree_iff_replica : WellGiven cliOptionDefinitions replicaGroups ∧
    (OrderFree cliOptionDefinitions replicaGroups ↔
      Aligned (given replicaGroups cliOptionDefinitions)) :=
  ⟨replicaGroups_wellGiven, cliParseOpts_orderFree_iff replicaGroups_wellGiven⟩

/-- A boolean, defined in front of an option with a value. -/
def verboseDefinitions : List CLIOptionDefinition :=
  [⟨cstr "verbose", some (cstr "v"), .bool, true⟩, ⟨cstr "name", some (cstr "n"), .string, true⟩]

def verboseGroups : List (CLIGroup verboseDefinitions) :=
  [{ definition := ⟨cstr "name", some (cstr "n"), .string, true⟩
     flag := cstr "--name"
     text := some (cstr "x")
     value := .string (cstr "x")
     defined := by decide +kernel
     spelled := by decide +kernel
     denotes := .string _
     plain := by decide +kernel },
   { definition := ⟨cstr "verbose", some (cstr "v"), .bool, true⟩
     flag := cstr "--verbose"
     text := none
     value := .bool true
     defined := by decide +kernel
     spelled := by decide +kernel
     denotes := .bool
     plain := by decide +kernel }]

/-- With the boolean in front both options are read; behind the value it makes the parse fail. -/
theorem cliParseOpts_order_matters : WellGiven verboseDefinitions verboseGroups ∧
    cliParseOpts verboseDefinitions [cstr "--verbose", cstr "--name", cstr "x"] =
      .ok (some [⟨true, some (.bool true)⟩, ⟨true, some (.string (cstr "x"))⟩]) ∧
    cliParseOpts verboseDefinitions [cstr "--name", cstr "x", cstr "--verbose"] = .ok none ∧
    ¬ OrderFree verboseDefinitions verboseGroups := by
  have hfails : cliParseOpts verboseDefinitions (verboseGroups.flatMap CLIGroup.args) =
      .ok none := by
    decide +kernel
  refine ⟨⟨by decide +kernel, by decide +kernel, by decide +kernel⟩, by decide +kernel, hfails, ?_⟩
  intro hfree
  have hreads := hfree verboseGroups (List.Perm.refl _)
  rw [hfails] at hreads
  cases hreads

theorem cliOptionDefinitions_orderFree {groups : List (CLIGroup cliOptionDefinitions)}
    (honce : (groups.map CLIGroup.definition).Nodup) : OrderFree cliOptionDefinitions groups := by
  have hwell : WellGiven cliOptionDefinitions groups := by
    refine ⟨by decide +kernel, honce, ?_⟩
    intro definition hdefinition hrequired
    have hoptional : ∀ definition ∈ cliOptionDefinitions, definition.isOptional = true := by
      decide +kernel
    rw [hoptional definition hdefinition] at hrequired
    cases hrequired
  have hvalued : ∀ definition ∈ cliOptionDefinitions, definition.type ≠ .bool := by decide +kernel
  refine hwell.orderFree (Or.inl fun definition hgiven => ?_)
  exact hvalued definition (List.mem_of_mem_filter hgiven)

end Redic
