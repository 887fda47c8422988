/-
An aggregate of rows that were cut into parts.

Every field of an aggregate is a sum of what the rows add to it, under an operation that does not
care how the rows are put in parts: an exact sum, the greatest or the least, a count, or a value
that one row spoils.
-/
import Mathlib.Data.Prod.Lex
import Kronika.Library.Run
import Kronika.Query.RelationSums

namespace Kronika.Query
namespace Relations

open Library

/-! ## Maps of fields -/

section Maps

variable {α : Type} {β : Type*} {names : List String} {view : α → β} {empty : α}
  {wanted other next : String → β} {seen also whole : Prop} {map more : Named α}

theorem updateNamed_eq (hnames : names.Nodup) (update : String → α → α) (map : Named α)
    (name : String) :
    updateNamed names empty update map name =
      if name ∈ names then some (update name ((map name).getD empty)) else map name := by
  rw [updateNamed]
  induction names generalizing map with
  | nil => rfl
  | cons first names ih =>
    obtain ⟨hfirst, hnames⟩ := List.nodup_cons.mp hnames
    rw [List.foldl_cons, ih hnames]
    by_cases hname : name = first
    · rw [hname, if_neg hfirst, if_pos List.mem_cons_self, Function.update_self]
    · rw [Function.update_of_ne hname]
      split_ifs with hmem hcons hcons
      · rfl
      · exact absurd (List.mem_cons_of_mem first hmem) hcons
      · exact absurd hcons (by rw [List.mem_cons]; rintro (h | h); exacts [hname h, hmem h])
      · rfl

/-- The fields of a map are what is wanted, and there are no others. -/
structure Follows (names : List String) (view : α → β) (empty : α) (wanted : String → β)
    (seen : Prop) (map : Named α) : Prop where
  value : ∀ name ∈ names, view ((map name).getD empty) = wanted name
  absent : ∀ name, name ∉ names → map name = none
  present : seen → ∀ name ∈ names, (map name).isSome = true

theorem Follows.update (h : Follows names view empty wanted seen map) (hnames : names.Nodup)
    (update : String → α → α)
    (hstep : ∀ name ∈ names, view (update name ((map name).getD empty)) = next name) :
    Follows names view empty next also (updateNamed names empty update map) where
  value name hname := by
    rw [updateNamed_eq hnames, if_pos hname]
    exact hstep name hname
  absent name hname := by
    rw [updateNamed_eq hnames, if_neg hname]
    exact h.absent name hname
  present _ name hname := by
    rw [updateNamed_eq hnames, if_pos hname]
    rfl

theorem Follows.merge (h : Follows names view empty wanted seen map)
    (hmore : Follows names view empty other also more) (halso : also) (merge : α → α → α)
    (hmerge : ∀ name ∈ names,
      view (merge ((map name).getD empty) ((more name).getD empty)) = next name) :
    Follows names view empty next whole (mergeNamed empty merge map more) where
  value name hname := by
    obtain ⟨value, hvalue⟩ := Option.isSome_iff_exists.mp (hmore.present halso name hname)
    have hboth := hmerge name hname
    rw [hvalue] at hboth
    rw [mergeNamed, hvalue]
    exact hboth
  absent name hname := by
    rw [mergeNamed, hmore.absent name hname]
    exact h.absent name hname
  present _ name hname := by
    obtain ⟨value, hvalue⟩ := Option.isSome_iff_exists.mp (hmore.present halso name hname)
    rw [mergeNamed, hvalue]
    rfl

theorem Follows.merge_foldl {merge : α → α → α} {wanted other next : String → α}
    (h : Follows names id empty wanted seen map) (hmore : Follows names id empty other also more)
    (halso : also) (hmerge : ∀ name, merge (wanted name) (other name) = next name) :
    Follows names id empty next whole (mergeNamed empty merge map more) := by
  apply h.merge hmore halso merge
  intro name hname
  have hvalue : (map name).getD empty = wanted name := h.value name hname
  have hmoreValue : (more name).getD empty = other name := hmore.value name hname
  rw [hvalue, hmoreValue]
  exact hmerge name

theorem Follows.view_eq (h : Follows names view empty wanted seen map) (hseen : seen)
    (hmore : Follows names view empty wanted also more) (halso : also) (name : String) :
    (map name).map view = (more name).map view := by
  by_cases hname : name ∈ names
  · have hleft := h.value name hname
    have hright := hmore.value name hname
    obtain ⟨left, hsome⟩ := Option.isSome_iff_exists.mp (h.present hseen name hname)
    obtain ⟨right, hother⟩ := Option.isSome_iff_exists.mp (hmore.present halso name hname)
    rw [hsome] at hleft
    rw [hother] at hright
    rw [hsome, hother]
    exact congrArg some (hleft.trans hright.symm)
  · rw [h.absent name hname, hmore.absent name hname]

theorem Follows.eq {wanted : String → α} (h : Follows names id empty wanted seen map)
    (hseen : seen) (hmore : Follows names id empty wanted also more) (halso : also) :
    map = more := by
  funext name
  have heq := h.view_eq hseen hmore halso name
  rw [Option.map_id] at heq
  exact heq

theorem insertNamed_of_isSome {values : List (String × Option α)} {map : Named α} {name : String}
    (h : ∀ entry ∈ values, entry.1 = name → entry.2.isSome = true → (map name).isSome = true) :
    insertNamed values map name = map name := by
  rw [insertNamed]
  induction values generalizing map with
  | nil => rfl
  | cons entry values ih =>
    obtain ⟨hentry, hvalues⟩ := List.forall_mem_cons.mp h
    obtain ⟨other, value⟩ := entry
    cases value with
    | none => exact ih hvalues
    | some value =>
      have hkept : Function.update map other (some ((map other).getD value)) name = map name := by
        by_cases hname : name = other
        · subst hname
          obtain ⟨found, hfound⟩ := Option.isSome_iff_exists.mp (hentry rfl rfl)
          rw [Function.update_self, hfound]
          rfl
        · exact Function.update_of_ne hname _ _
      show (values.foldl _ (Function.update map other (some ((map other).getD value)))) name = _
      rw [ih (by rw [hkept]; exact hvalues), hkept]

end Maps

/-! ## What an aggregate stands for -/

section Describes

variable (floats : FloatOps) (kind : RelationKind) (key : GroupKey)

def severityOf (member : Member) : Option Int :=
  match kind with
  | .tables => none
  | .indexes => severity member

def labelKey (label : Int × Format.Bytes) : Lex (Int × List Nat) :=
  toLex (-label.1, label.2.map UInt8.toNat)

def labelOf (member : Member) : Option (Int × Format.Bytes) :=
  if key.isTablespace then
    (textCell (member.row.get "tablespace") member.dictionary).toOption.join.map
      (member.source.timestamp, ·)
  else none

def addLabel (label : Option (Int × Format.Bytes)) (member : Member) :
    Option (Int × Format.Bytes) :=
  Option.merge (leastBy labelKey) label (labelOf key member)

def addSource (source : Option RelationSource) (member : Member) : Option RelationSource :=
  Option.merge RelationSource.min source (some member.source)

def addSeverity (known : Option (Option Int)) (member : Member) : Option (Option Int) :=
  Option.merge (Option.map₂ max) known (some (severityOf kind member))

def addRate (name : String) (sum : Tally ℚ≥0) (member : Member) : Tally ℚ≥0 :=
  sum.add (rateTally (rateInput floats kind member name) member.elapsed)

def addGauge (name : String) (sum : Tally Int) (member : Member) : Tally Int :=
  sum.add (gaugeTally (gaugeOf floats kind member name))

/-- Every field of an aggregate is what the rows add up to. -/
structure Describes (aggregate : RelationAggregate) (members : List Member) : Prop where
  keyed : aggregate.key = key
  count : aggregate.count = members.foldl (fun count _ => Reader.saturatingAdd count 1) 0
  source : ∀ source, members.foldl addSource none = some source → aggregate.source = source
  sampleFrom : aggregate.sampleFrom =
    members.foldl (fun known member => Option.merge min known (sampleFrom member)) none
  sampleTo : aggregate.sampleTo = members.foldl
    (fun known member => Option.merge max known (some member.source.timestamp)) none
  rates : Follows kind.rates RateAggregate.view RateAggregate.default
    (fun name => (members.foldl (addRate floats kind name) .empty).map .ofRat) (members ≠ [])
    aggregate.rates
  gauges : Follows kind.gauges id Tally.empty
    (fun name => (members.foldl (addGauge floats kind name) .empty).map .integer) (members ≠ [])
    aggregate.gauges
  maxima : Follows kind.maxima id MaximumAggregate.default
    (fun name => members.foldl (fun maximum member =>
      maximum.add floats (member.contract.column name).isSome (member.row.get name))
      MaximumAggregate.default) (members ≠ []) aggregate.maxima
  timestamps : Follows kind.timestamps id TimestampAggregate.default
    (fun name => members.foldl (fun timestamp member =>
      timestamp.add (observation kind member name)) TimestampAggregate.default) (members ≠ [])
    aggregate.timestamps
  flags : Follows kind.flags id BoolAggregate.default
    (fun name => members.foldl (fun flag member => flag.add (member.row.get name))
      BoolAggregate.default) (members ≠ []) aggregate.flags
  noScans : aggregate.noScans = members.foldl (addNoScans floats kind) BoolAggregate.default
  severity : aggregate.stateSeverity = (members.foldl (addSeverity kind) none).join
  labelTimestamp : aggregate.tablespaceLabelTimestamp =
    (members.foldl (addLabel key) none).map Prod.fst
  label : key.isTablespace = true →
    aggregate.texts "tablespace" = (members.foldl (addLabel key) none).map Prod.snd

theorem describes_new (source : RelationSource) :
    Describes floats kind key (RelationAggregate.new key source) [] where
  keyed := rfl
  count := rfl
  source _ h := by cases h
  sampleFrom := rfl
  sampleTo := rfl
  rates := ⟨fun _ _ => rfl, fun _ _ => rfl, fun h => absurd rfl h⟩
  gauges := ⟨fun _ _ => rfl, fun _ _ => rfl, fun h => absurd rfl h⟩
  maxima := ⟨fun _ _ => rfl, fun _ _ => rfl, fun h => absurd rfl h⟩
  timestamps := ⟨fun _ _ => rfl, fun _ _ => rfl, fun h => absurd rfl h⟩
  flags := ⟨fun _ _ => rfl, fun _ _ => rfl, fun h => absurd rfl h⟩
  noScans := rfl
  severity := rfl
  labelTimestamp := rfl
  label _ := rfl

end Describes

/-! ## Labels -/

section Labels

variable {aggregate : RelationAggregate} {known : Option (Int × Format.Bytes)}
  {timestamp : Int} {label : Format.Bytes}

theorem newer_iff (timestamp other : Int) (label current : Format.Bytes) :
    (decide (other < timestamp) ||
        (decide (timestamp = other) && decide (compareBytes label current = .lt))) = true ↔
      labelKey (timestamp, label) < labelKey (other, current) := by
  rw [labelKey, labelKey, Prod.Lex.toLex_lt_toLex, Bool.or_eq_true, Bool.and_eq_true,
    decide_eq_true_eq, decide_eq_true_eq, decide_eq_true_eq, compareBytes,
    TieBreak.compareRanks, compare_lt_iff_lt, neg_lt_neg_iff, neg_inj]

theorem updateTablespaceLabel_eq (aggregate : RelationAggregate) (timestamp : Int)
    (label : Format.Bytes) : ∃ labelTimestamp texts,
      aggregate.updateTablespaceLabel timestamp label =
        { aggregate with tablespaceLabelTimestamp := labelTimestamp, texts := texts } := by
  rw [RelationAggregate.updateTablespaceLabel]
  split_ifs
  · exact ⟨_, _, rfl⟩
  · exact ⟨aggregate.tablespaceLabelTimestamp, aggregate.texts, rfl⟩

theorem updateTablespaceLabel_label
    (htimestamp : aggregate.tablespaceLabelTimestamp = known.map Prod.fst)
    (htext : aggregate.texts "tablespace" = known.map Prod.snd) :
    (aggregate.updateTablespaceLabel timestamp label).tablespaceLabelTimestamp =
        (Option.merge (leastBy labelKey) known (some (timestamp, label))).map Prod.fst ∧
      (aggregate.updateTablespaceLabel timestamp label).texts "tablespace" =
        (Option.merge (leastBy labelKey) known (some (timestamp, label))).map Prod.snd := by
  have hself : Function.update aggregate.texts "tablespace" (some label) "tablespace" =
      some label := Function.update_self _ _ _
  rw [RelationAggregate.updateTablespaceLabel, htimestamp, htext]
  cases known with
  | none => exact ⟨rfl, hself⟩
  | some found =>
    have hmerge : Option.merge (leastBy labelKey) (some found) (some (timestamp, label)) =
        some (leastBy labelKey found (timestamp, label)) := rfl
    rw [hmerge, Option.map_some, Option.all_some, Option.map_some, Option.all_some]
    by_cases hnewer : labelKey (timestamp, label) < labelKey found
    · rw [if_pos ((newer_iff timestamp found.1 label found.2).mpr hnewer), leastBy,
        if_pos hnewer]
      exact ⟨rfl, hself⟩
    · rw [if_neg fun h => hnewer ((newer_iff timestamp found.1 label found.2).mp h), leastBy,
        if_neg hnewer]
      exact ⟨htimestamp, htext⟩

end Labels

/-! ## A further row -/

section Added

variable {floats : FloatOps} {kind : RelationKind} {key : GroupKey}
  {aggregate next : RelationAggregate} {members : List Member} {member : Member}

/-- The values that a row adds to exact sums are integers. -/
structure Member.Exact (floats : FloatOps) (kind : RelationKind) (member : Member) : Prop where
  rates : ∀ name ∈ kind.rates, (rateInput floats kind member name).Exact
  gauges : ∀ name ∈ kind.gauges, (gaugeOf floats kind member name).Exact

/-- The exact sums of an aggregate and a row fit. -/
structure AddFits (floats : FloatOps) (kind : RelationKind) (aggregate : RelationAggregate)
    (member : Member) : Prop where
  rates : ∀ name ∈ kind.rates, ((aggregate.rates name).getD RateAggregate.default).Fits
    ((rateTally (rateInput floats kind member name) member.elapsed).map .ofRat)
  gauges : ∀ name ∈ kind.gauges, GaugeFits ((aggregate.gauges name).getD .empty)
    ((gaugeTally (gaugeOf floats kind member name)).map .integer)

theorem nodup_names (kind : RelationKind) : kind.rates.Nodup ∧ kind.gauges.Nodup ∧
    kind.maxima.Nodup ∧ kind.timestamps.Nodup ∧ kind.flags.Nodup := by
  cases kind
  · decide +kernel
  · decide +kernel

theorem foldl_concat {σ ι : Type*} (step : σ → ι → σ) (empty : σ) (items : List ι) (item : ι) :
    (items ++ [item]).foldl step empty = step (items.foldl step empty) item := by
  rw [List.foldl_append, List.foldl_cons, List.foldl_nil]

theorem foldl_optionMerge_isSome {α ι : Type*} (op : α → α → α) (part : ι → α)
    {items : List ι} (h : items ≠ []) :
    (items.foldl (fun known item => Option.merge op known (some (part item))) none).isSome =
      true := by
  rcases List.eq_nil_or_concat items with rfl | ⟨front, last, rfl⟩
  · exact absurd rfl h
  · rw [List.concat_eq_append, foldl_concat]
    cases front.foldl (fun known item => Option.merge op known (some (part item))) none <;> rfl

theorem count_eq (members : List Member) :
    members.foldl (fun count _ => Reader.saturatingAdd count 1) 0 =
      min members.length (2 ^ 64 - 1) := by
  induction members using List.reverseRecOn with
  | nil => rfl
  | append_singleton members member ih =>
    rw [foldl_concat, ih, List.length_append, List.length_singleton]
    unfold Reader.saturatingAdd
    omega

theorem readTexts_eq_ok {texts : Option Format.Bytes × List (String × Option Format.Bytes)}
    (h : RelationAggregate.readTexts kind key member = .ok texts) :
    labelOf key member = texts.1.map (member.source.timestamp, ·) ∧
      (texts.1.isSome = true → key.isTablespace = true) ∧
      ∀ entry ∈ texts.2, key.isTablespace = true → entry.1 = "tablespace" → entry.2 = texts.1 := by
  obtain ⟨label, hlabel, h⟩ := bind_eq_ok.mp h
  obtain ⟨values, hvalues, h⟩ := bind_eq_ok.mp h
  rw [← Except.ok.inj h]
  have hentry : ∀ entry ∈ values,
      textCell (member.row.get entry.1) member.dictionary = .ok entry.2 := by
    intro entry hmem
    obtain ⟨name, _, hread⟩ := exists_left_of_forall₂ (mapM_eq_ok.mp hvalues) hmem
    cases htext : textCell (member.row.get name) member.dictionary with
    | error problem =>
      rw [htext] at hread
      cases hread
    | ok text =>
      rw [htext] at hread
      rw [← Except.ok.inj hread]
      exact htext
  cases hkey : key.isTablespace with
  | false =>
    rw [RelationAggregate.readLabel, hkey] at hlabel
    have hnone : label = none := (Except.ok.inj hlabel).symm
    rw [labelOf, hkey, hnone]
    refine ⟨rfl, fun hsome => ?_, fun _ _ hfalse => ?_⟩
    · cases hsome
    · cases hfalse
  | true =>
    rw [RelationAggregate.readLabel, if_pos hkey] at hlabel
    refine ⟨?_, fun _ => rfl, fun entry hmem _ hname => ?_⟩
    · rw [labelOf, hkey, hlabel]
      rfl
    · have hread := hentry entry hmem
      rw [hname, hlabel] at hread
      exact (Except.ok.inj hread).symm

theorem labelled_eq {labels : Option (Int × Format.Bytes)} {label : Option Format.Bytes}
    (htimestamp : aggregate.tablespaceLabelTimestamp = labels.map Prod.fst)
    (htext : key.isTablespace = true → aggregate.texts "tablespace" = labels.map Prod.snd)
    (hlabel : label.isSome = true → key.isTablespace = true) (timestamp : Int) :
    ∃ labelTimestamp texts,
      label.elim aggregate (aggregate.updateTablespaceLabel timestamp) =
        { aggregate with tablespaceLabelTimestamp := labelTimestamp, texts := texts } ∧
      labelTimestamp = (Option.merge (leastBy labelKey) labels
        (label.map (timestamp, ·))).map Prod.fst ∧
      (key.isTablespace = true → texts "tablespace" = (Option.merge (leastBy labelKey) labels
        (label.map (timestamp, ·))).map Prod.snd) := by
  cases label with
  | none =>
    refine ⟨aggregate.tablespaceLabelTimestamp, aggregate.texts, rfl, ?_, fun hkey => ?_⟩
    · rw [htimestamp, Option.map_none, Option.merge_none_right]
    · rw [htext hkey, Option.map_none, Option.merge_none_right]
  | some label =>
    obtain ⟨hnewTimestamp, hnewText⟩ :=
      @updateTablespaceLabel_label aggregate labels timestamp label htimestamp (htext (hlabel rfl))
    obtain ⟨labelTimestamp, texts, heq⟩ := updateTablespaceLabel_eq aggregate timestamp label
    rw [heq] at hnewTimestamp hnewText
    exact ⟨labelTimestamp, texts, heq, hnewTimestamp, fun _ => hnewText⟩

theorem severity_tables (members : List Member) :
    (members.foldl (addSeverity .tables) none).join = none := by
  rcases List.eq_nil_or_concat members with rfl | ⟨front, last, rfl⟩
  · rfl
  · rw [List.concat_eq_append, foldl_concat]
    cases front.foldl (addSeverity .tables) none with
    | none => rfl
    | some known => cases known <;> rfl

theorem severityWith_eq (hcount : aggregate.count =
      Reader.saturatingAdd (members.foldl (fun count _ => Reader.saturatingAdd count 1) 0) 1)
    (hseverity : aggregate.stateSeverity = (members.foldl (addSeverity .indexes) none).join) :
    aggregate.severityWith (severity member) =
      ((members ++ [member]).foldl (addSeverity .indexes) none).join := by
  have hone : aggregate.count = 1 ↔ members = [] := by
    rw [hcount, count_eq, ← List.length_eq_zero_iff]
    unfold Reader.saturatingAdd
    omega
  rw [foldl_concat, RelationAggregate.severityWith.eq_def, hseverity, addSeverity]
  have hkind : severityOf .indexes member = severity member := rfl
  rw [hkind]
  by_cases hnil : members = []
  · rw [hnil]
    cases severity member with
    | none => rfl
    | some value => exact if_pos (hone.mpr hnil)
  · obtain ⟨known, hknown⟩ := Option.isSome_iff_exists.mp
      (foldl_optionMerge_isSome (Option.map₂ max) (severityOf .indexes) hnil)
    have hfold : members.foldl (addSeverity .indexes) none = some known := hknown
    rw [hfold]
    cases known with
    | none =>
      cases severity member with
      | none => rfl
      | some value => exact if_neg fun h => hnil (hone.mp h)
    | some left => cases severity member <;> rfl

theorem source_eq {source : RelationSource}
    (hsource : ∀ known, members.foldl addSource none = some known → aggregate.source = known)
    (hfirst : members = [] → aggregate.source = member.source)
    (h : (members ++ [member]).foldl addSource none = some source) :
    aggregate.source.min member.source = source := by
  rw [foldl_concat] at h
  by_cases hnil : members = []
  · rw [hfirst hnil, RelationSource.min, leastBy, if_neg (lt_irrefl _)]
    rw [hnil] at h
    exact Option.some.inj h
  · obtain ⟨known, hknown⟩ := Option.isSome_iff_exists.mp
      (foldl_optionMerge_isSome RelationSource.min Member.source hnil)
    have hfold : members.foldl addSource none = some known := hknown
    rw [hfold] at h
    rw [hsource known hfold]
    exact Option.some.inj h

theorem optionMin_eq (known value : Option Int) :
    value.elim known (fun value => some (known.elim value (min · value))) =
      Option.merge min known value := by
  cases known with
  | none => cases value <;> rfl
  | some known => cases value <;> rfl

theorem Describes.add (h : Describes floats kind key aggregate members)
    (hfirst : members = [] → aggregate.source = member.source)
    (hexact : member.Exact floats kind) (hfits : AddFits floats kind aggregate member)
    (hadd : aggregate.add floats kind member = .ok next) :
    Describes floats kind key next (members ++ [member]) := by
  cases hread : RelationAggregate.readTexts kind aggregate.key member with
  | error problem =>
    rw [RelationAggregate.add, hread] at hadd
    cases hadd
  | ok texts =>
    rw [RelationAggregate.add, hread] at hadd
    have hnext : aggregate.addRow floats kind member texts = next := Except.ok.inj hadd
    rw [h.keyed] at hread
    obtain ⟨hlabel, hkey, hentries⟩ := readTexts_eq_ok hread
    obtain ⟨labelTimestamp, labels, heq, htimestamp, htext⟩ :=
      @labelled_eq key (aggregate.counted member) _ texts.1 h.labelTimestamp h.label hkey
        member.source.timestamp
    rw [← hlabel] at htimestamp htext
    rw [RelationAggregate.addRow, heq] at hnext
    rw [← hnext]
    obtain ⟨hrates, hgauges, hmaxima, htimestamps, hflags⟩ := nodup_names kind
    exact {
      keyed := h.keyed
      count := by
        rw [foldl_concat, ← h.count]
        rfl
      source := fun source hsource => source_eq h.source hfirst hsource
      sampleFrom := by
        rw [foldl_concat, ← h.sampleFrom]
        exact optionMin_eq aggregate.sampleFrom (Relations.sampleFrom member)
      sampleTo := by
        rw [foldl_concat, ← h.sampleTo]
        show some (aggregate.sampleTo.elim member.source.timestamp _) = _
        cases aggregate.sampleTo <;> rfl
      rates := h.rates.update hrates
        (fun name rate => rate.add floats (rateInput floats kind member name) member.elapsed)
        fun name hname => by
          rw [foldl_concat]
          exact view_add (h.rates.value name hname) (hexact.rates name hname)
            (hfits.rates name hname)
      gauges := h.gauges.update hgauges
        (fun name gauge => Availability.add floats gauge (gaugeOf floats kind member name))
        fun name hname => by
          have hvalue : (aggregate.gauges name).getD .empty = _ := h.gauges.value name hname
          have hsum := hfits.gauges name hname
          rw [hvalue] at hsum
          rw [hvalue, foldl_concat]
          exact gauge_add (hexact.gauges name hname) hsum
      maxima := h.maxima.update hmaxima
        (fun name maximum =>
          maximum.add floats (member.contract.column name).isSome (member.row.get name))
        fun name hname => by
          have hvalue : (aggregate.maxima name).getD MaximumAggregate.default = _ :=
            h.maxima.value name hname
          rw [hvalue, foldl_concat]
          rfl
      timestamps := h.timestamps.update htimestamps
        (fun name timestamp => timestamp.add (observation kind member name))
        fun name hname => by
          have hvalue : (aggregate.timestamps name).getD TimestampAggregate.default = _ :=
            h.timestamps.value name hname
          rw [hvalue, foldl_concat]
          rfl
      flags := h.flags.update hflags (fun name flag => flag.add (member.row.get name))
        fun name hname => by
          have hvalue : (aggregate.flags name).getD BoolAggregate.default = _ :=
            h.flags.value name hname
          rw [hvalue, foldl_concat]
          rfl
      noScans := by
        rw [foldl_concat, ← h.noScans]
        cases kind <;> rfl
      severity := by
        cases kind with
        | tables =>
          rw [severity_tables]
          exact h.severity.trans (severity_tables members)
        | indexes =>
          apply severityWith_eq
          · show Reader.saturatingAdd aggregate.count 1 = _
            rw [h.count]
          · exact h.severity
      labelTimestamp := by
        rw [foldl_concat]
        exact htimestamp
      label := fun htablespace => by
        rw [foldl_concat]
        show insertNamed texts.2 labels "tablespace" = _
        rw [addLabel, ← htext htablespace]
        apply insertNamed_of_isSome
        intro entry hentry hname hsome
        rw [hentries entry hentry htablespace hname] at hsome
        obtain ⟨label, hvalue⟩ := Option.isSome_iff_exists.mp hsome
        rw [htext htablespace, hlabel, hvalue]
        cases members.foldl (addLabel key) none <;> rfl }

end Added

/-! ## Two parts -/

section Merged

variable {floats : FloatOps} {kind : RelationKind} {key : GroupKey}
  {aggregate other : RelationAggregate} {members more : List Member}

/-- The exact sums of two aggregates fit. -/
structure MergeFits (kind : RelationKind) (aggregate other : RelationAggregate) : Prop where
  rates : ∀ name ∈ kind.rates, ((aggregate.rates name).getD RateAggregate.default).Fits
    ((other.rates name).getD RateAggregate.default).view
  gauges : ∀ name ∈ kind.gauges, GaugeFits ((aggregate.gauges name).getD .empty)
    ((other.gauges name).getD .empty)

theorem mergeable_severity : Mergeable (fun _ => True) (addSeverity kind)
    (Option.merge (Option.map₂ max)) none :=
  mergeable_optionMerge (fun _ _ _ => Option.map₂_assoc max_assoc)
    fun member => some (severityOf kind member)

theorem mergeable_source : Mergeable (fun _ => True) addSource
    (Option.merge RelationSource.min) none :=
  mergeable_optionMerge (leastBy_assoc RelationSource.rank)
    fun member : Member => some member.source

theorem mergeable_label : Mergeable (fun _ => True) (addLabel key)
    (Option.merge (leastBy labelKey)) none :=
  mergeable_optionMerge (leastBy_assoc labelKey) (labelOf key)

theorem label_isSome (h : (members.foldl (addLabel key) none).isSome = true) :
    key.isTablespace = true := by
  cases hkey : key.isTablespace with
  | true => rfl
  | false =>
    have hnone : members.foldl (addLabel key) none = none := by
      induction members using List.reverseRecOn with
      | nil => rfl
      | append_singleton members member ih =>
        rw [foldl_concat, addLabel, labelOf, if_neg (by rw [hkey]; exact Bool.false_ne_true)]
        cases hmembers : members.foldl (addLabel key) none with
        | none => rfl
        | some label =>
          rw [hmembers] at ih
          exact ih rfl
    rw [hnone] at h
    cases h

theorem merge_eq (hlabel : key.isTablespace = true →
      aggregate.texts "tablespace" = (members.foldl (addLabel key) none).map Prod.snd)
    (htimestamp : aggregate.tablespaceLabelTimestamp =
      (members.foldl (addLabel key) none).map Prod.fst)
    (hmore : Describes floats kind key other more) :
    ∃ labelTimestamp texts, aggregate.merge floats other =
        { aggregate.mergeFields floats other with
          tablespaceLabelTimestamp := labelTimestamp, texts := texts } ∧
      labelTimestamp = ((members ++ more).foldl (addLabel key) none).map Prod.fst ∧
      (key.isTablespace = true →
        texts "tablespace" = ((members ++ more).foldl (addLabel key) none).map Prod.snd) := by
  have hboth := (@mergeable_label key).merge_foldl members more
  rw [← hboth, RelationAggregate.merge, hmore.labelTimestamp]
  cases hmoreLabel : more.foldl (addLabel key) none with
  | none =>
    refine ⟨aggregate.tablespaceLabelTimestamp, aggregate.texts, rfl, ?_, fun hkey => ?_⟩
    · rw [Option.merge_none_right]
      exact htimestamp
    · rw [Option.merge_none_right]
      exact hlabel hkey
  | some label =>
    have hkey : key.isTablespace = true := @label_isSome key more (by rw [hmoreLabel]; rfl)
    have htext := hmore.label hkey
    rw [hmoreLabel] at htext
    obtain ⟨labelTimestamp, texts, heq, hnew, hnewText⟩ :=
      @labelled_eq key (aggregate.mergeFields floats other) _ (some label.2) htimestamp hlabel
        (fun _ => hkey) label.1
    rw [htext]
    exact ⟨labelTimestamp, texts, heq, hnew, hnewText⟩

theorem Describes.merge (h : Describes floats kind key aggregate members)
    (hmore : Describes floats kind key other more) (hne : members ≠ []) (hneMore : more ≠ [])
    (hfits : MergeFits kind aggregate other) :
    Describes floats kind key (aggregate.merge floats other) (members ++ more) := by
  obtain ⟨labelTimestamp, texts, heq, htimestamp, htext⟩ := merge_eq h.label h.labelTimestamp hmore
  rw [heq]
  exact {
    keyed := h.keyed
    count := by
      rw [← mergeable_count.merge_foldl, ← h.count, ← hmore.count]
      rfl
    source := fun source hsource => by
      rw [← mergeable_source.merge_foldl] at hsource
      obtain ⟨left, hleft⟩ := Option.isSome_iff_exists.mp
        (foldl_optionMerge_isSome RelationSource.min Member.source hne)
      obtain ⟨right, hright⟩ := Option.isSome_iff_exists.mp
        (foldl_optionMerge_isSome RelationSource.min Member.source hneMore)
      have hfold : members.foldl addSource none = some left := hleft
      have hfoldMore : more.foldl addSource none = some right := hright
      rw [hfold, hfoldMore] at hsource
      show aggregate.source.min other.source = source
      rw [h.source left hfold, hmore.source right hfoldMore]
      exact Option.some.inj hsource
    sampleFrom := by
      rw [← (mergeable_optionMerge min_assoc _).merge_foldl, ← h.sampleFrom, ← hmore.sampleFrom]
      rfl
    sampleTo := by
      rw [← (mergeable_optionMerge max_assoc _).merge_foldl, ← h.sampleTo, ← hmore.sampleTo]
      rfl
    rates := by
      apply h.rates.merge hmore.rates hneMore (RateAggregate.merge floats)
      intro name hname
      have hsum : (members ++ more).foldl (addRate floats kind name) .empty = _ :=
        ((Tally.mergeable fun member : Member =>
          rateTally (rateInput floats kind member name) member.elapsed).merge_foldl members
            more).symm
      rw [hsum]
      exact view_merge (h.rates.value name hname) (hmore.rates.value name hname)
        (hfits.rates name hname)
    gauges := by
      apply h.gauges.merge hmore.gauges hneMore (Availability.merge floats)
      intro name hname
      have hsum : (members ++ more).foldl (addGauge floats kind name) .empty = _ :=
        ((Tally.mergeable fun member : Member =>
          gaugeTally (gaugeOf floats kind member name)).merge_foldl members more).symm
      have hvalue : (aggregate.gauges name).getD .empty = _ := h.gauges.value name hname
      have hvalueMore : (other.gauges name).getD .empty = _ := hmore.gauges.value name hname
      have hgauge := hfits.gauges name hname
      rw [hvalue, hvalueMore] at hgauge
      rw [hsum, hvalue, hvalueMore]
      exact gauge_merge hgauge
    maxima := h.maxima.merge_foldl hmore.maxima hneMore fun name =>
      (mergeable_maximum floats name).merge_foldl members more
    timestamps := h.timestamps.merge_foldl hmore.timestamps hneMore fun name =>
      (mergeable_timestamp kind name).merge_foldl members more
    flags := h.flags.merge_foldl hmore.flags hneMore fun name =>
      (mergeable_flag name).merge_foldl members more
    noScans := by
      rw [← (mergeable_noScans floats kind).merge_foldl, ← h.noScans, ← hmore.noScans]
      rfl
    severity := by
      obtain ⟨left, hleft⟩ := Option.isSome_iff_exists.mp
        (foldl_optionMerge_isSome (Option.map₂ max) (severityOf kind) hne)
      obtain ⟨right, hright⟩ := Option.isSome_iff_exists.mp
        (foldl_optionMerge_isSome (Option.map₂ max) (severityOf kind) hneMore)
      have hfold : members.foldl (addSeverity kind) none = some left := hleft
      have hfoldMore : more.foldl (addSeverity kind) none = some right := hright
      rw [← mergeable_severity.merge_foldl, hfold, hfoldMore]
      show aggregate.stateSeverity.bind _ = Option.map₂ max left right
      rw [h.severity, hmore.severity, hfold, hfoldMore]
      cases left with
      | none => rfl
      | some left => cases right <;> rfl
    labelTimestamp := htimestamp
    label := htext }

end Merged

/-! ## All parts -/

section Whole

variable {floats : FloatOps} {kind : RelationKind} {key : GroupKey}
  {members : List Member} {parts : List (List Member)}

/-- The exact sums of all rows fit, one row after the other. -/
def AddsFit (floats : FloatOps) (kind : RelationKind) (key : GroupKey) (members : List Member) :
    Prop :=
  ∀ front member back, members = front ++ member :: back → ∀ slot,
    aggregate floats kind key front = .ok slot →
      AddFits floats kind (slot.getD (RelationAggregate.new key member.source)) member

/-- The exact sums of all aggregates fit, one aggregate after the other. -/
def MergesFit (floats : FloatOps) (kind : RelationKind) : List RelationAggregate → Prop
  | [] => True
  | first :: others => Run.Along (MergeFits kind) (RelationAggregate.merge floats) first others

theorem aggregate_concat (members : List Member) (member : Member) :
    aggregate floats kind key (members ++ [member]) =
      aggregate floats kind key members >>= fun slot => addMember floats kind key slot member := by
  rw [aggregate, List.foldlM_append]
  congr 1
  funext slot
  rw [List.foldlM_cons]
  cases addMember floats kind key slot member <;> rfl

theorem describes_aggregate (hexact : ∀ member ∈ members, member.Exact floats kind)
    (hfits : AddsFit floats kind key members) {slot : Option RelationAggregate}
    (h : aggregate floats kind key members = .ok slot) :
    (members = [] ∧ slot = none) ∨
      ∃ found, slot = some found ∧ Describes floats kind key found members := by
  induction members using List.reverseRecOn generalizing slot with
  | nil => exact Or.inl ⟨rfl, (Except.ok.inj h).symm⟩
  | append_singleton members member ih =>
    rw [aggregate_concat] at h
    obtain ⟨before, hbefore, hadd⟩ := bind_eq_ok.mp h
    have hstep := hfits members member [] rfl before hbefore
    obtain ⟨hexactBefore, hexactMember⟩ := List.forall_mem_append.mp hexact
    have hdescribes : Describes floats kind key
          (before.getD (RelationAggregate.new key member.source)) members ∧
        (members = [] →
          (before.getD (RelationAggregate.new key member.source)).source = member.source) := by
      have hfitsBefore : AddsFit floats kind key members := by
        intro front other back hsplit
        apply hfits front other (back ++ [member])
        rw [hsplit, List.append_assoc, List.cons_append]
      rcases ih hexactBefore hfitsBefore hbefore with ⟨hnil, hnone⟩ | ⟨found, hfound, hdescribes⟩
      · rw [hnil, hnone]
        exact ⟨describes_new floats kind key member.source, fun _ => rfl⟩
      · rw [hfound]
        refine ⟨hdescribes, fun hnil => ?_⟩
        rw [hnil, hfound] at hbefore
        cases hbefore
    rw [addMember] at hadd
    cases hnext : (before.getD (RelationAggregate.new key member.source)).add floats kind
      member with
    | error problem =>
      rw [hnext] at hadd
      cases hadd
    | ok next =>
      rw [hnext] at hadd
      exact Or.inr ⟨next, (Except.ok.inj hadd).symm,
        hdescribes.1.add hdescribes.2 (hexactMember member List.mem_cons_self) hstep hnext⟩

theorem describes_merges {first : RelationAggregate} {others : List RelationAggregate}
    (h : Describes floats kind key first members) (hne : members ≠ [])
    (hothers : List.Forall₂ (fun part other => part ≠ [] ∧ Describes floats kind key other part)
      parts others)
    (hfits : Run.Along (MergeFits kind) (RelationAggregate.merge floats) first others) :
    Describes floats kind key (others.foldl (RelationAggregate.merge floats) first)
      (members ++ parts.flatten) := by
  induction hothers generalizing first members with
  | nil =>
    rw [List.flatten_nil, List.append_nil]
    exact h
  | @cons part other parts others hpart hothers ih =>
    rw [List.flatten_cons, ← List.append_assoc]
    exact ih (h.merge hpart.2 hne hpart.1 hfits.1) (List.append_ne_nil_of_left_ne_nil hne part)
      hfits.2

theorem describes_slots {slots : List (Option RelationAggregate)}
    (h : List.Forall₂ (fun part slot => aggregate floats kind key part = .ok slot) parts slots)
    (hne : ∀ part ∈ parts, part ≠ [])
    (hexact : ∀ part ∈ parts, ∀ member ∈ part, member.Exact floats kind)
    (hfits : ∀ part ∈ parts, AddsFit floats kind key part) :
    List.Forall₂ (fun part other => part ≠ [] ∧ Describes floats kind key other part) parts
      slots.reduceOption := by
  induction h with
  | nil => exact List.Forall₂.nil
  | @cons part slot parts slots hpart _ ih =>
    obtain ⟨hpartNe, hne⟩ := List.forall_mem_cons.mp hne
    obtain ⟨hpartExact, hexact⟩ := List.forall_mem_cons.mp hexact
    obtain ⟨hpartFits, hfits⟩ := List.forall_mem_cons.mp hfits
    rcases describes_aggregate hpartExact hpartFits hpart with ⟨hnil, _⟩ | ⟨found, hfound, hfoundOf⟩
    · exact absurd hnil hpartNe
    · rw [hfound]
      show List.Forall₂ _ (part :: parts) (found :: slots.reduceOption)
      exact List.Forall₂.cons ⟨hpartNe, hfoundOf⟩ (ih hne hexact hfits)

/-- The aggregates are the same in everything that is reported of them. -/
structure Same (left right : RelationAggregate) : Prop where
  key : left.key = right.key
  count : left.count = right.count
  source : left.source = right.source
  sampleFrom : left.sampleFrom = right.sampleFrom
  sampleTo : left.sampleTo = right.sampleTo
  rates : ∀ name, (left.rates name).map RateAggregate.view =
    (right.rates name).map RateAggregate.view
  gauges : left.gauges = right.gauges
  maxima : left.maxima = right.maxima
  timestamps : left.timestamps = right.timestamps
  flags : left.flags = right.flags
  noScans : left.noScans = right.noScans
  stateSeverity : left.stateSeverity = right.stateSeverity
  labelTimestamp : left.tablespaceLabelTimestamp = right.tablespaceLabelTimestamp
  label : left.key.isTablespace = true → left.texts "tablespace" = right.texts "tablespace"

theorem Describes.same {left right : RelationAggregate}
    (h : Describes floats kind key left members) (hright : Describes floats kind key right members)
    (hne : members ≠ []) : Same left right where
  key := h.keyed.trans hright.keyed.symm
  count := h.count.trans hright.count.symm
  source := by
    obtain ⟨source, hsource⟩ := Option.isSome_iff_exists.mp
      (foldl_optionMerge_isSome RelationSource.min Member.source hne)
    exact (h.source source hsource).trans (hright.source source hsource).symm
  sampleFrom := h.sampleFrom.trans hright.sampleFrom.symm
  sampleTo := h.sampleTo.trans hright.sampleTo.symm
  rates := h.rates.view_eq hne hright.rates hne
  gauges := h.gauges.eq hne hright.gauges hne
  maxima := h.maxima.eq hne hright.maxima hne
  timestamps := h.timestamps.eq hne hright.timestamps hne
  flags := h.flags.eq hne hright.flags hne
  noScans := h.noScans.trans hright.noScans.symm
  stateSeverity := h.severity.trans hright.severity.symm
  labelTimestamp := h.labelTimestamp.trans hright.labelTimestamp.symm
  label hkey := by
    rw [h.keyed] at hkey
    exact (h.label hkey).trans (hright.label hkey).symm

/-! ## Texts that cannot be read -/

def problemOf {α : Type} : Except QueryError α → Option QueryError
  | .ok _ => none
  | .error problem => some problem

def readProblem (kind : RelationKind) (key : GroupKey) (member : Member) : Option QueryError :=
  problemOf (RelationAggregate.readTexts kind key member)

theorem problemOf_bind {α β : Type} (first : Except QueryError α)
    (next : α → Except QueryError β) {problem : Option QueryError}
    (h : ∀ value, first = .ok value → problemOf (next value) = problem) :
    problemOf (first >>= next) = (problemOf first).or problem := by
  cases first with
  | error found => rfl
  | ok value => exact h value rfl

theorem addRow_key (aggregate : RelationAggregate) (member : Member)
    (texts : Option Format.Bytes × List (String × Option Format.Bytes)) :
    (aggregate.addRow floats kind member texts).key = aggregate.key := by
  obtain ⟨label, values⟩ := texts
  cases label with
  | none => rfl
  | some label =>
    obtain ⟨labelTimestamp, labels, heq⟩ :=
      updateTablespaceLabel_eq (aggregate.counted member) member.source.timestamp label
    show ((aggregate.counted member).updateTablespaceLabel member.source.timestamp label).key = _
    rw [heq]
    rfl

theorem problemOf_foldlM (slot : Option RelationAggregate)
    (hkey : ∀ found, slot = some found → found.key = key) :
    problemOf (members.foldlM (addMember floats kind key) slot) =
      members.findSome? (readProblem kind key) := by
  induction members generalizing slot with
  | nil => rfl
  | cons member members ih =>
    have hslot : (slot.getD (RelationAggregate.new key member.source)).key = key := by
      cases slot with
      | none => rfl
      | some found => exact hkey found rfl
    rw [List.foldlM_cons, List.findSome?_cons, readProblem, addMember, RelationAggregate.add, hslot]
    cases RelationAggregate.readTexts kind key member with
    | error problem => rfl
    | ok texts =>
      show problemOf (members.foldlM (addMember floats kind key) (some _)) = _
      apply ih
      intro found hfound
      rw [← Option.some.inj hfound, addRow_key, hslot]

theorem problemOf_mapM (parts : List (List Member)) :
    problemOf (parts.mapM (aggregate floats kind key)) =
      parts.flatten.findSome? (readProblem kind key) := by
  induction parts with
  | nil => rfl
  | cons part parts ih =>
    have hnone : ∀ found, (none : Option RelationAggregate) = some found → found.key = key := by
      intro found hfound
      cases hfound
    rw [List.mapM_cons, List.flatten_cons, List.findSome?_append, ← ih,
      ← @problemOf_foldlM floats kind key part none hnone]
    apply problemOf_bind
    intro slot _
    cases parts.mapM (aggregate floats kind key) <;> rfl

/-- Cutting the rows of a group into parts changes nothing that is reported of its aggregate, and
the sum of two exact rates is their sum in lowest terms. -/
theorem aggregateParts_same (floats : FloatOps) (kind : RelationKind) (key : GroupKey)
    (parts : List (List Member)) (hne : ∀ part ∈ parts, part ≠ [])
    (hexact : ∀ member ∈ parts.flatten, member.Exact floats kind)
    (hwhole : AddsFit floats kind key parts.flatten)
    (hparts : ∀ part ∈ parts, AddsFit floats kind key part)
    (hmerges : ∀ slots, parts.mapM (aggregate floats kind key) = .ok slots →
      MergesFit floats kind slots.reduceOption) :
    (∀ whole, aggregate floats kind key parts.flatten = .ok (some whole) →
        ∃ merged, aggregateParts floats kind key parts = .ok (some merged) ∧ Same merged whole) ∧
      (∀ problem, aggregate floats kind key parts.flatten = .error problem →
        aggregateParts floats kind key parts = .error problem) ∧
      ∀ left leftDenominator right rightDenominator sum,
        0 < leftDenominator → 0 < rightDenominator →
        RateValue.exactSum (.exact left leftDenominator) (.exact right rightDenominator) =
          some sum →
        RateValue.add floats (.exact left leftDenominator) (.exact right rightDenominator) =
            some sum ∧
          ∃ numerator denominator, sum = .exact numerator denominator ∧
            Nat.Coprime numerator denominator ∧ 0 < denominator ∧
            (numerator : ℚ≥0) / denominator =
              left / leftDenominator + right / rightDenominator := by
  have hproblem : problemOf (aggregate floats kind key parts.flatten) =
      problemOf (parts.mapM (aggregate floats kind key)) := by
    rw [problemOf_mapM, aggregate, problemOf_foldlM]
    intro found hfound
    cases hfound
  refine ⟨fun whole hwholeOk => ?_, fun problem herror => ?_,
    fun left leftDenominator right rightDenominator sum hleft hright hsum => ?_⟩
  · rw [hwholeOk] at hproblem
    cases hslots : parts.mapM (aggregate floats kind key) with
    | error problem =>
      rw [hslots] at hproblem
      cases hproblem
    | ok slots =>
      have hmergesFit := hmerges slots hslots
      have hexactPart : ∀ part ∈ parts, ∀ member ∈ part, member.Exact floats kind :=
        fun part hpart member hmember => hexact member (List.mem_flatten_of_mem hpart hmember)
      have hothers := describes_slots (mapM_eq_ok.mp hslots) hne hexactPart hparts
      rw [aggregateParts, hslots]
      show ∃ merged, Except.ok (mergeAll floats slots.reduceOption) = _ ∧ _
      generalize slots.reduceOption = aggregates at hmergesFit hothers
      cases hothers with
      | nil => cases hwholeOk
      | @cons part first rest others hfirst hothers =>
        have hmerged := describes_merges hfirst.2 hfirst.1 hothers hmergesFit
        have hnePart : (part :: rest).flatten ≠ [] := by
          exact List.append_ne_nil_of_left_ne_nil hfirst.1 _
        rcases describes_aggregate hexact hwhole hwholeOk with ⟨_, hnone⟩ | ⟨found, hfound, hall⟩
        · cases hnone
        · rw [Option.some.inj hfound]
          exact ⟨_, rfl, hmerged.same hall hnePart⟩
  · rw [herror] at hproblem
    cases hslots : parts.mapM (aggregate floats kind key) with
    | error other =>
      rw [hslots] at hproblem
      rw [aggregateParts, hslots, Option.some.inj hproblem]
      rfl
    | ok slots =>
      rw [hslots] at hproblem
      cases hproblem
  · have heq := exactSum_eq hleft hright hsum
    refine ⟨?_, _, _, heq, NNRat.coprime_num_den _, NNRat.den_pos _, NNRat.num_div_den _⟩
    rw [RateValue.add, hsum, Option.some_or]

end Whole

/-! ## Two indexes of two databases -/

section Sample

instance decidableFits (aggregate : RateAggregate) (added : Tally RateValue) :
    Decidable (aggregate.Fits added) :=
  match hview : aggregate.view, added with
  | .value known, .value value =>
    decidable_of_iff ((RateValue.exactSum known value).isSome = true)
      ⟨fun h _ _ hknown hvalue => by
        rw [← Tally.value.inj (hview.symm.trans hknown), ← Tally.value.inj hvalue]
        exact h, fun h => h known value hview rfl⟩
  | .value _, .empty | .value _, .unavailable => .isTrue fun _ _ _ h => by cases h
  | .empty, _ | .unavailable, _ => .isTrue fun _ _ h => by
    rw [hview] at h
    cases h

instance decidableGaugeFits (sum added : Availability) : Decidable (GaugeFits sum added) :=
  match sum, added with
  | .value (.integer left), .value (.integer right) =>
    decidable_of_iff (-2 ^ 127 ≤ left + right ∧ left + right < 2 ^ 127)
      ⟨fun h _ _ hleft hright => by
        cases hleft
        cases hright
        exact h, fun h => h left right rfl rfl⟩
  | .value (.integer _), .value (.float _) | .value (.integer _), .empty
  | .value (.integer _), .unavailable => .isTrue fun _ _ _ h => by cases h
  | .value (.float _), _ | .empty, _ | .unavailable, _ => .isTrue fun _ _ h => by cases h

instance decidableAddFits (floats : FloatOps) (kind : RelationKind)
    (aggregate : RelationAggregate) (member : Member) :
    Decidable (AddFits floats kind aggregate member) :=
  decidable_of_iff
    ((∀ name ∈ kind.rates, ((aggregate.rates name).getD RateAggregate.default).Fits
        ((rateTally (rateInput floats kind member name) member.elapsed).map .ofRat)) ∧
      ∀ name ∈ kind.gauges, GaugeFits ((aggregate.gauges name).getD .empty)
        ((gaugeTally (gaugeOf floats kind member name)).map .integer))
    ⟨fun h => ⟨h.1, h.2⟩, fun h => ⟨h.rates, h.gauges⟩⟩

instance decidableMergeFits (kind : RelationKind) (aggregate other : RelationAggregate) :
    Decidable (MergeFits kind aggregate other) :=
  decidable_of_iff
    ((∀ name ∈ kind.rates, ((aggregate.rates name).getD RateAggregate.default).Fits
        ((other.rates name).getD RateAggregate.default).view) ∧
      ∀ name ∈ kind.gauges, GaugeFits ((aggregate.gauges name).getD .empty)
        ((other.gauges name).getD .empty))
    ⟨fun h => ⟨h.1, h.2⟩, fun h => ⟨h.rates, h.gauges⟩⟩

instance decidableMemberExact (floats : FloatOps) (kind : RelationKind) (member : Member) :
    Decidable (member.Exact floats kind) :=
  decidable_of_iff
    ((∀ name ∈ kind.rates, (rateInput floats kind member name).Exact) ∧
      ∀ name ∈ kind.gauges, (gaugeOf floats kind member name).Exact)
    ⟨fun h => ⟨h.1, h.2⟩, fun h => ⟨h.rates, h.gauges⟩⟩

def scanContract : TypeContract where
  typeId := 9
  semantics := .snapshotFull
  columns := [⟨"idx_scan", .i64, .cumulative⟩, ⟨"main_fork_bytes", .i64, .gauge⟩]
  identity := []

/-- An index that was scanned. -/
def scanMember (earlier : Option Int) (now elapsed : Int) (ordinal : Nat) : Member where
  contract := scanContract
  row := { cells := [("idx_scan", .i64 now), ("main_fork_bytes", .i64 8192)] }
  before := earlier.map fun earlier => [("idx_scan", .i64 earlier)]
  elapsed := some elapsed
  dictionary := fun _ => none
  source := ⟨1, 0, ordinal, 9, 100⟩

def scanKey : GroupKey := .tablespace 1663

def scanParts : List (List Member) :=
  [[scanMember (some 0) 3 2 0], [scanMember (some 4) 5 6 1]]

theorem addsFit_nil (floats : FloatOps) (kind : RelationKind) (key : GroupKey) :
    AddsFit floats kind key [] := by
  intro front member back hsplit
  exact absurd hsplit.symm (List.append_ne_nil_of_right_ne_nil front (List.cons_ne_nil _ _))

theorem AddsFit.concat {floats : FloatOps} {kind : RelationKind} {key : GroupKey}
    {members : List Member} {member : Member} (h : AddsFit floats kind key members)
    (hmember : AddFits floats kind ((aggregate floats kind key members).toOption.join.getD
      (RelationAggregate.new key member.source)) member) :
    AddsFit floats kind key (members ++ [member]) := by
  intro front other back hsplit slot hslot
  rcases List.eq_nil_or_concat back with rfl | ⟨between, last, rfl⟩
  · obtain ⟨hmembers, hlast⟩ := List.append_inj' hsplit rfl
    rw [hmembers, hslot, (List.cons.inj hlast).1] at hmember
    exact hmember
  · rw [List.concat_eq_append, ← List.cons_append, ← List.append_assoc] at hsplit
    exact h front other between (List.append_inj' hsplit rfl).1 slot hslot

theorem addsFit_scanParts : AddsFit noFloats .indexes scanKey scanParts.flatten ∧
    ∀ part ∈ scanParts, AddsFit noFloats .indexes scanKey part := by
  have hfirst : AddsFit noFloats .indexes scanKey [scanMember (some 0) 3 2 0] :=
    (addsFit_nil noFloats .indexes scanKey).concat (by decide +kernel)
  refine ⟨hfirst.concat (by decide +kernel), fun part hpart => ?_⟩
  rcases List.mem_cons.mp hpart with rfl | hpart
  · exact hfirst
  · rw [List.mem_singleton.mp hpart]
    exact (addsFit_nil noFloats .indexes scanKey).concat (by decide +kernel)

theorem mergesFit_scanParts {slots : List (Option RelationAggregate)}
    (h : scanParts.mapM (aggregate noFloats .indexes scanKey) = .ok slots) :
    MergesFit noFloats .indexes slots.reduceOption := by
  have hslots : slots =
      (scanParts.mapM (aggregate noFloats .indexes scanKey)).toOption.getD [] := by
    rw [h]
    rfl
  rw [hslots]
  exact ⟨by decide +kernel, trivial⟩

/-- The rates are `3/2` and `1/6` in one aggregate and in two. -/
theorem aggregateParts_same_sample : ∃ merged whole,
    aggregateParts noFloats .indexes scanKey scanParts = .ok (some merged) ∧
      Same merged whole ∧ whole.rates "idx_scan" = some ⟨some (.exact 5 3), false⟩ := by
  have hwhole : ∃ whole, aggregate noFloats .indexes scanKey scanParts.flatten = .ok (some whole) ∧
      whole.rates "idx_scan" = some ⟨some (.exact 5 3), false⟩ := ⟨_, rfl, by decide +kernel⟩
  obtain ⟨whole, hwhole, hrate⟩ := hwhole
  obtain ⟨merged, hmerged, hsame⟩ := (aggregateParts_same noFloats .indexes scanKey scanParts
    (by decide) (by decide +kernel) addsFit_scanParts.1 addsFit_scanParts.2
    fun _ hslots => mergesFit_scanParts hslots).1 whole hwhole
  exact ⟨merged, whole, hmerged, hsame, hrate⟩

/-- A row without a predecessor spoils a rate.  The sum of the rows before it stays in the
aggregate, and a merge drops it. -/
theorem aggregateParts_hidden :
    (∀ member ∈ [scanMember (some 0) 3 2 0, scanMember none 5 6 1],
      member.Exact noFloats .indexes) ∧
      (aggregate noFloats .indexes scanKey
        [scanMember (some 0) 3 2 0, scanMember none 5 6 1]).toOption.join.bind
          (·.rates "idx_scan") = some ⟨some (.exact 3 2), true⟩ ∧
      (aggregateParts noFloats .indexes scanKey
        [[scanMember (some 0) 3 2 0], [scanMember none 5 6 1]]).toOption.join.bind
          (·.rates "idx_scan") = some ⟨none, true⟩ :=
  ⟨by decide +kernel, by decide +kernel, by decide +kernel⟩

end Sample

end Relations
end Kronika.Query
