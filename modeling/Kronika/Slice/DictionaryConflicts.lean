/-
When merging the dictionaries of finished segments conflicts.

A segment decides between string and blob by what was requested within it, so two
segments may hold one value in two forms.  The merge fails exactly for such a value:
it keeps every pair that it inserted, and refuses a second form of a kept id.
-/
import Kronika.Dictionary.Finish
import Kronika.Slice.MergedDictionary

namespace Kronika

open Format Writer

/-! ## What a segment stores -/

variable {value : DictionaryValue}

namespace Writer

/-- One of the two forms of a value of `V`, under its id. -/
def StoredAs (hashes : Hashes) (limits : DictLimits) (V : Set Bytes) (id : StrId)
    (value : DictionaryValue) : Prop :=
  ∃ bytes ∈ V, StrId.of hashes bytes = some id ∧
    ∃ placement, value = .ofValue hashes limits placement bytes

/-- What the finished dictionary requires of a value before it looks at its id. -/
def DictionaryValue.Valid (hashes : Hashes) (id : StrId) : DictionaryValue → Prop
  | string bytes => StrId.of hashes bytes = some id
  | blob bytes fullLen truncated fullSha256 =>
    FinishedDictionary.validBlob hashes id bytes fullLen truncated fullSha256 = true

variable {hashes : Hashes} {limits : DictLimits} {V : Set Bytes} {id : StrId}

theorem placement_ofValue (placement : Placement) (bytes : Bytes) :
    (DictionaryValue.ofValue hashes limits placement bytes).placement = placement := by
  cases placement <;> rfl

theorem StoredAs.valid (h : StoredAs hashes limits V id value) : value.Valid hashes id := by
  obtain ⟨bytes, -, hid, placement, rfl⟩ := h
  cases placement with
  | strings => exact hid
  | blobs => exact validBlob_ofValue hid

theorem StoredAs.eq_of_placement (hinj : IdInjective hashes V) {left right : DictionaryValue}
    (hleft : StoredAs hashes limits V id left) (hright : StoredAs hashes limits V id right)
    (h : left.placement = right.placement) : left = right := by
  obtain ⟨v, hv, hvid, p, rfl⟩ := hleft
  obtain ⟨w, hw, hwid, q, rfl⟩ := hright
  rw [placement_ofValue, placement_ofValue] at h
  rw [h, hinj v hv w hw (hvid.trans hwid.symm)]

namespace SegmentRun

/-- The rows of every stored window are forms of interned values. -/
structure Stores (hashes : Hashes) (limits : DictLimits) (V : Set Bytes) (run : SegmentRun) :
    Prop where
  interner_limits : run.interner.limits = limits
  sound : run.interner.Sound hashes V
  rows : ∀ window ∈ run.windows, RowsAllowed hashes (StoredAs hashes limits V) window

theorem call_limits (hsep : Separated hashes V) {interner : Interner}
    (hsound : interner.Sound hashes V) (kind : Kind) {bytes : Bytes} (hV : bytes ∈ V) :
    (interner.call hashes kind bytes).2.limits = interner.limits := by
  have hwindow := (Interner.call_stores hashes interner kind bytes).1
  have hrequest : (interner.request hashes bytes kind.req).2.limits = interner.limits := by
    cases hid : StrId.of hashes bytes with
    | none => simp only [Interner.request, hid]
    | some id => exact (Interner.request_spec kind.req hsound hsep hV hid).limits
  rw [← hrequest, Interner.limits, hwindow, Interner.limits]

theorem Stores.step {run : SegmentRun} (h : run.Stores hashes limits V)
    (hsep : Separated hashes V) {step : SegmentStep} (hV : step.values ⊆ V) :
    (run.step hashes step).Stores hashes limits V := by
  cases step with
  | call kind bytes =>
    exact ⟨(call_limits hsep h.sound kind (hV rfl)).trans h.interner_limits,
      h.sound.call hsep kind (hV rfl), h.rows⟩
  | flush =>
    rw [step_flush]
    cases hencode : encode run.interner.window with
    | error problem => exact h
    | ok sections =>
      refine ⟨(Interner.afterFlush_window h.sound).1.trans h.interner_limits, h.sound.afterFlush,
        fun window hwindow => ?_⟩
      rcases List.mem_append.mp hwindow with hold | hnew
      · exact h.rows window hold
      · rw [List.mem_singleton.mp hnew]
        refine rowsAllowed_encode h.sound.window (fun id stored bytes _ hbytes hentry => ?_) hencode
        exact ⟨bytes, hbytes, hentry.id_eq, _, by rw [← h.interner_limits]; rfl⟩

theorem stores_finish (limits : DictLimits) (hinj : IdInjective hashes V) {steps : List SegmentStep}
    (hV : ∀ step ∈ steps, step.values ⊆ V) :
    (Run.finish (SegmentRun.step hashes) (new limits) steps).Stores hashes limits V := by
  have hinit : (new limits).Stores hashes limits V :=
    ⟨rfl, Interner.new_sound limits, fun window h => absurd h List.not_mem_nil⟩
  have hrun : Run.Along (fun _ _ => True) (SegmentRun.step hashes) (new limits) steps :=
    Run.Along.of_forall fun _ _ _ => trivial
  exact Run.invariant (fun run step hstep h _ => h.step hinj.separated (hV step hstep)) hinit hrun

end SegmentRun

/-! ## The rows of a finished segment -/

namespace FinishedDictionary

variable (dictionary : FinishedDictionary)

theorem sortById_entries (p : EntrySnapshot → Bool) :
    sortById ((dictionary.values.toList.map fun e => finishedSnapshot e.1 e.2).filter p) =
      (dictionary.values.toList.map fun e => finishedSnapshot e.1 e.2).filter p := by
  refine List.Pairwise.insertionSort_eq (List.Pairwise.filter p ?_)
  rw [List.pairwise_map]
  refine dictionary.values.ordered_keys_toList.imp fun {a b} h => ?_
  have hlt : a.1.raw < b.1.raw := Std.compare_eq_lt.mp (show compare a.1.raw b.1.raw = .lt from h)
  have hid : ∀ e : StrId × DictionaryValue, (finishedSnapshot e.1 e.2).strId = e.1 := by
    rintro ⟨id, value⟩
    cases value <;> rfl
  rw [hid, hid]
  exact UInt64.le_of_lt hlt

def entriesAt (placement : Placement) : List (StrId × DictionaryValue) :=
  dictionary.values.toList.filter fun e => e.2.placement = placement

theorem finishedSnapshot_placement (e : StrId × DictionaryValue) :
    (finishedSnapshot e.1 e.2).placement = e.2.placement := by
  obtain ⟨id, value⟩ := e
  cases value <;> rfl

theorem writeSections_strings :
    dictionary.writeSections.strings.map Reader.stringValue =
      (dictionary.entriesAt .strings).map fun e => (e.1.raw, e.2) := by
  rw [writeSections, encodeFinalEntries, sortById_entries]
  simp only [List.map_map, List.filter_map, Function.comp_def, finishedSnapshot_placement]
  refine List.map_congr_left fun e he => ?_
  have hplace := of_decide_eq_true (List.mem_filter.mp he).2
  obtain ⟨id, value⟩ := e
  cases value with
  | string bytes => rfl
  | blob bytes fullLen truncated sha => cases hplace

theorem writeSections_blobs :
    dictionary.writeSections.blobs.map Reader.blobValue =
      (dictionary.entriesAt .blobs).map fun e => (e.1.raw, e.2) := by
  rw [writeSections, encodeFinalEntries, sortById_entries, sortById_entries]
  simp only [List.map_map, List.filter_map, Function.comp_def, finishedSnapshot_placement]
  refine List.map_congr_left fun e he => ?_
  have hplace := of_decide_eq_true (List.mem_filter.mp he).2
  obtain ⟨id, value⟩ := e
  cases value with
  | string bytes => cases hplace
  | blob bytes fullLen truncated sha => rfl

theorem mem_entriesAt {placement : Placement} {e : StrId × DictionaryValue} :
    e ∈ dictionary.entriesAt placement ↔
      dictionary.values[e.1]? = some e.2 ∧ e.2.placement = placement := by
  rw [entriesAt, List.mem_filter, decide_eq_true_iff, Std.TreeMap.mem_toList_iff_getElem?_eq_some]

theorem entriesAt_distinct (placement : Placement) :
    (dictionary.entriesAt placement).Pairwise fun a b => a.1 ≠ b.1 := by
  refine List.Pairwise.filter _ (dictionary.values.distinct_keys_toList.imp fun {a b} h he => ?_)
  exact h (by rw [he]; exact Std.ReflCmp.compare_self)

end FinishedDictionary

end Writer

/-! ## What a reader returns -/

variable {id : StrId}

namespace Reader

theorem Dictionary.insert_fresh {dictionary : Dictionary}
    (h : dictionary.byId[id]? = none) (value : OwnedDictionaryValue) :
    dictionary.insert id value = .ok { byId := dictionary.byId.insert id value } := by
  simp only [insert, h]

theorem decodeSelected_ok (wanted : List UInt64)
    (entries : List (StrId × OwnedDictionaryValue)) (dictionary : Dictionary)
    (hdistinct : entries.Pairwise fun a b => a.1 ≠ b.1)
    (hfresh : ∀ e ∈ entries, dictionary.byId[e.1]? = none) :
    ∃ after, Dictionary.decodeSelected wanted dictionary
        (entries.map fun e => (e.1.raw, e.2)) = .ok after ∧
      ∀ (id : StrId) (value : OwnedDictionaryValue), after.byId[id]? = some value ↔
        dictionary.byId[id]? = some value ∨ id.raw ∈ wanted ∧ (id, value) ∈ entries := by
  induction entries generalizing dictionary with
  | nil => exact ⟨dictionary, rfl, by simp⟩
  | cons e entries ih =>
    obtain ⟨id, value⟩ := e
    rw [List.pairwise_cons] at hdistinct
    rw [List.map_cons, Dictionary.decodeSelected]
    by_cases hw : id.raw ∈ wanted
    · have hnone : dictionary.byId[id]? = none := hfresh _ List.mem_cons_self
      simp only [hw, StrId.fromRaw_eq_some.mpr rfl, Dictionary.insert_fresh hnone]
      obtain ⟨after, heq, hafter⟩ := ih { byId := dictionary.byId.insert id value } hdistinct.2
        (fun next hnext => by
          show (dictionary.byId.insert id value)[next.1]? = none
          rw [TreeMap.getElem?_insert_ne _ _ (hdistinct.1 next hnext).symm]
          exact hfresh next (List.mem_cons_of_mem _ hnext))
      refine ⟨after, heq, fun j other => (hafter j other).trans ?_⟩
      rw [List.mem_cons, Prod.mk.injEq]
      show (dictionary.byId.insert id value)[j]? = some other ∨ _ ↔ _
      by_cases hj : j = id
      · subst hj
        rw [TreeMap.getElem?_insert_self, hnone]
        simp only [hw, Option.some.injEq, eq_comm, true_and, false_or, reduceCtorEq]
      · rw [TreeMap.getElem?_insert_ne _ _ hj]
        simp only [hj, false_and, false_or]
    · simp only [hw]
      obtain ⟨after, heq, hafter⟩ := ih dictionary hdistinct.2
        (fun next hnext => hfresh next (List.mem_cons_of_mem _ hnext))
      refine ⟨after, heq, fun j other => (hafter j other).trans ?_⟩
      rw [List.mem_cons, Prod.mk.injEq]
      by_cases hj : j = id
      · subst hj
        simp only [hw, false_and]
      · simp only [hj, false_and, false_or]

theorem dictionaryFor_writeSections (dictionary : FinishedDictionary) (ids : List UInt64) :
    ∃ owned, dictionaryFor dictionary.writeSections ids = .ok owned ∧
      ∀ (id : StrId) (value : OwnedDictionaryValue), owned.byId[id]? = some value ↔
        id.raw ∈ ids ∧ dictionary.values[id]? = some value := by
  have hempty : ∀ id : StrId, Dictionary.default.byId[id]? = none := fun id => by
    simp [Dictionary.default]
  rw [dictionaryFor]
  by_cases hids : ids = []
  · refine ⟨Dictionary.default, by rw [hids]; rfl, fun id value => ?_⟩
    rw [hempty, hids]
    simp
  · rw [if_neg (by simpa using hids), FinishedDictionary.writeSections_strings,
      FinishedDictionary.writeSections_blobs]
    obtain ⟨strings, heq, hstrings⟩ := decodeSelected_ok ids
      (dictionary.entriesAt .strings) Dictionary.default
      (dictionary.entriesAt_distinct .strings) (fun e _ => hempty e.1)
    obtain ⟨after, heq', hafter⟩ := decodeSelected_ok ids
      (dictionary.entriesAt .blobs) strings (dictionary.entriesAt_distinct .blobs)
      (fun e he => by
        -- The finished dictionary has one value for an id, so the sections are disjoint.
        by_contra hne
        obtain ⟨value, hvalue⟩ := Option.ne_none_iff_exists'.mp hne
        rw [hstrings, hempty] at hvalue
        obtain ⟨hget, hplace⟩ := dictionary.mem_entriesAt.mp he
        obtain ⟨hget', hplace'⟩ := dictionary.mem_entriesAt.mp (hvalue.resolve_left (by simp)).2
        obtain rfl := Option.some.inj (hget.symm.trans hget')
        cases hplace.symm.trans hplace')
    refine ⟨after, by simp only [heq, heq'], fun id value => ?_⟩
    rw [hafter, hstrings, hempty, dictionary.mem_entriesAt, dictionary.mem_entriesAt]
    cases value.placement <;> simp

theorem EntryOrder.mem_intoEntries (order : EntryOrder) (dictionary : Dictionary)
    {e : StrId × OwnedDictionaryValue} :
    e ∈ order.intoEntries dictionary ↔ dictionary.byId[e.1]? = some e.2 :=
  (order.perm dictionary).mem_iff.trans Std.TreeMap.mem_toList_iff_getElem?_eq_some

theorem EntryOrder.distinct (order : EntryOrder) (dictionary : Dictionary) :
    (order.intoEntries dictionary).Pairwise fun a b => a.1 ≠ b.1 := by
  refine ((order.perm dictionary).pairwise_iff fun {a b} h => h.symm).mpr ?_
  exact dictionary.byId.distinct_keys_toList.imp fun {a b} h he =>
    h (by rw [he]; exact Std.ReflCmp.compare_self)

end Reader

/-! ## The merge -/

namespace Slice

variable {hashes : Hashes} {P : StrId → DictionaryValue → Prop}

/-- An error that the merge may end with; a conflict only under `conflict`. -/
def SliceError.Expected (conflict : Prop) : SliceError → Prop
  | .unresolvedDictionary _ => True
  | .write (.dictionaryConflict _) => conflict
  | .write problem => problem.IsCap
  | .codec _ => False

theorem SliceError.expected_of_cap {conflict : Prop} {problem : WriteError} (h : problem.IsCap) :
    (SliceError.write problem).Expected conflict := by
  cases problem with
  | dictionaryConflict strId => exact absurd h id
  | codec problem => exact h
  | arithmeticOverflow what => exact h

/-- A merge of values that `P` allows: it ends with an expected error, or it keeps what
it had, with every pair of `inserted`. -/
def Merges (P : StrId → DictionaryValue → Prop) (before : FinishedDictionary)
    (inserted : StrId → DictionaryValue → Prop)
    (result : Except SliceError FinishedDictionary) : Prop :=
  (∃ problem, result = .error problem ∧ problem.Expected (¬Functional P)) ∨
    ∃ after, result = .ok after ∧ after.Allowed P ∧
      ∀ id value, before.values[id]? = some value ∨ inserted id value →
        after.values[id]? = some value

variable {dictionary : FinishedDictionary}

theorem Merges.refl (h : dictionary.Allowed P)
    {inserted : StrId → DictionaryValue → Prop} (hnone : ∀ id value, ¬inserted id value) :
    Merges P dictionary inserted (.ok dictionary) :=
  .inr ⟨dictionary, rfl, h, fun id value hpair => hpair.resolve_right (hnone id value)⟩

theorem insertOwned_valid (h : value.Valid hashes id) :
    insertOwned hashes dictionary id value = dictionary.insertValue id value := by
  cases value with
  | string bytes =>
    have hne : (StrId.of hashes bytes != some id) = false :=
      (congrArg (· != some id) h).trans (bne_self_eq_false _)
    simp only [insertOwned, FinishedDictionary.insertOwnedString, hne, Bool.false_eq_true, if_false]
  | blob bytes fullLen truncated sha =>
    have hvalid : FinishedDictionary.validBlob hashes id bytes fullLen truncated sha = true := h
    simp only [insertOwned, FinishedDictionary.insertOwnedBlob, hvalid, Bool.not_true,
      Bool.false_eq_true, if_false]

theorem insertOwned_spec (hdict : dictionary.Allowed P) (hvalid : value.Valid hashes id)
    (hvalue : P id value) :
    (∃ problem, insertOwned hashes dictionary id value = .error problem ∧
        (SliceError.write problem).Expected (¬Functional P)) ∨
      ∃ after, insertOwned hashes dictionary id value = .ok after ∧ after.Allowed P ∧
        after.values[id]? = some value ∧
        ∀ (j : StrId) (other : DictionaryValue), dictionary.values[j]? = some other →
          after.values[j]? = some other := by
  rw [insertOwned_valid hvalid]
  rcases dictionary.insertValue_spec id value with
    ⟨existing, hget, hne, heq⟩ | ⟨problem, heq, hcap⟩ | ⟨after, heq, hself, hsame, hother⟩
  · refine .inl ⟨_, heq, fun hP => ?_⟩
    exact hne (hP id existing value (hdict id existing hget) hvalue)
  · exact .inl ⟨problem, heq, SliceError.expected_of_cap hcap⟩
  · have hkeeps : ∀ (j : StrId) (other : DictionaryValue),
        dictionary.values[j]? = some other → after.values[j]? = some other := by
      intro j other hj
      by_cases hji : j = id
      · rw [hji] at hj
        rw [hji, hself, hsame other hj]
      · rw [hother j hji, hj]
    refine .inr ⟨after, heq, fun j other hj => ?_, hself, hkeeps⟩
    by_cases hji : j = id
    · rw [hji, hself] at hj
      rw [hji, ← Option.some.inj hj]
      exact hvalue
    · rw [hother j hji] at hj
      exact hdict j other hj

theorem mergeEntries_spec (entries : List (StrId × DictionaryValue))
    (dictionary : FinishedDictionary) (ids : List UInt64) (hdict : dictionary.Allowed P)
    (hdistinct : entries.Pairwise fun a b => a.1 ≠ b.1)
    (hvalid : ∀ e ∈ entries, e.2.Valid hashes e.1) (hentries : ∀ e ∈ entries, P e.1 e.2) :
    Merges P dictionary (fun id value => id.raw ∈ ids ∧ (id, value) ∈ entries)
      (mergeEntries hashes dictionary ids entries) := by
  induction entries generalizing dictionary ids with
  | nil =>
    cases ids with
    | nil => exact .refl hdict fun id value h => absurd h.2 List.not_mem_nil
    | cons raw ids => exact .inl ⟨_, rfl, trivial⟩
  | cons e entries ih =>
    obtain ⟨id, value⟩ := e
    rw [List.pairwise_cons] at hdistinct
    have hvalid' := fun next hnext => hvalid next (List.mem_cons_of_mem _ hnext)
    have hentries' := fun next hnext => hentries next (List.mem_cons_of_mem _ hnext)
    rw [mergeEntries]
    by_cases hid : id.raw ∈ ids
    · rw [if_pos hid]
      rcases insertOwned_spec hdict (hvalid _ List.mem_cons_self)
        (hentries _ List.mem_cons_self) with
        ⟨problem, heq, hexp⟩ | ⟨next, heq, hnext, hself, hkeeps⟩
      · exact .inl ⟨_, by simp only [heq], hexp⟩
      · simp only [heq]
        rcases ih next (ids.filter fun raw => raw ≠ id.raw) hnext hdistinct.2 hvalid' hentries' with
          herror | ⟨after, hok, hafter, hmem⟩
        · exact .inl herror
        · refine .inr ⟨after, hok, hafter, fun j other hpair => hmem j other ?_⟩
          rcases hpair with hold | ⟨hj, hin⟩
          · exact .inl (hkeeps j other hold)
          · rcases List.mem_cons.mp hin with heq | htail
            · cases heq
              exact .inl hself
            · have hne : j.raw ≠ id.raw := fun h =>
                hdistinct.1 _ htail (StrId.ext_raw h).symm
              exact .inr ⟨List.mem_filter.mpr ⟨hj, decide_eq_true hne⟩, htail⟩
    · rw [if_neg hid]
      rcases ih dictionary ids hdict hdistinct.2 hvalid' hentries' with
        herror | ⟨after, hok, hafter, hmem⟩
      · exact .inl herror
      · refine .inr ⟨after, hok, hafter, fun j other hpair => hmem j other (hpair.imp_right ?_)⟩
        rintro ⟨hj, hin⟩
        rcases List.mem_cons.mp hin with heq | htail
        · cases heq
          exact absurd hj hid
        · exact ⟨hj, htail⟩

/-! ## Finished segments -/

/-- A segment that was finished, and what a slice reads of it. -/
structure FinishedRun (hashes : Hashes) (limits : DictLimits) where
  steps : List SegmentStep
  dictionary : FinishedDictionary
  finished : normalizeDictionary hashes
    (Run.finish (SegmentRun.step hashes) (SegmentRun.new limits) steps).windows = .ok dictionary
  dictionaryIds : List UInt64
  order : Reader.EntryOrder

namespace FinishedRun

variable {limits : DictLimits} {V : Set Bytes}

def referenced (run : FinishedRun hashes limits) : Referenced :=
  { sections := run.dictionary.writeSections, dictionaryIds := run.dictionaryIds
    order := run.order }

/-- The slice refers to `id`, which the segment stores as `value`. -/
def Refers (run : FinishedRun hashes limits) (id : StrId) (value : DictionaryValue) : Prop :=
  id.raw ∈ run.dictionaryIds ∧ run.dictionary.values[id]? = some value

theorem storedAs (run : FinishedRun hashes limits) (hinj : IdInjective hashes V)
    (hV : ∀ step ∈ run.steps, step.values ⊆ V) {id : StrId} {value : DictionaryValue}
    (h : run.dictionary.values[id]? = some value) : StoredAs hashes limits V id value := by
  have hrows := (SegmentRun.stores_finish limits hinj hV).rows
  have hresult := normalizeDictionary_allowed hrows
  rw [run.finished] at hresult
  exact hresult.allowed id value h

end FinishedRun

variable {limits : DictLimits} {V : Set Bytes} {runs : List (FinishedRun hashes limits)}

theorem mergeReferenced_spec (run : FinishedRun hashes limits) {dictionary : FinishedDictionary}
    (hdict : dictionary.Allowed P)
    (hvalid : ∀ id value, run.Refers id value → value.Valid hashes id)
    (hrefers : ∀ id value, run.Refers id value → P id value) :
    Merges P dictionary run.Refers (mergeReferenced hashes dictionary run.referenced) := by
  rw [mergeReferenced]
  by_cases hids : run.dictionaryIds = []
  · rw [if_pos (by rw [FinishedRun.referenced, hids]; rfl)]
    refine .refl hdict fun id value h => ?_
    rw [FinishedRun.Refers, hids] at h
    exact List.not_mem_nil h.1
  · rw [if_neg (by simpa [FinishedRun.referenced] using hids)]
    obtain ⟨owned, heq, howned⟩ :=
      Reader.dictionaryFor_writeSections run.dictionary run.dictionaryIds
    have hentry : ∀ e, e ∈ run.order.intoEntries owned ↔ run.Refers e.1 e.2 := fun e =>
      (run.order.mem_intoEntries owned).trans (howned e.1 e.2)
    have hmerges := mergeEntries_spec (run.order.intoEntries owned) dictionary run.dictionaryIds
      hdict (run.order.distinct owned) (fun e he => hvalid _ _ ((hentry e).mp he))
      (fun e he => hrefers _ _ ((hentry e).mp he))
    simp only [FinishedRun.referenced, heq]
    rcases hmerges with herror | ⟨after, hok, hafter, hmem⟩
    · exact .inl herror
    · refine .inr ⟨after, hok, hafter, fun id value hpair => hmem id value (hpair.imp_right ?_)⟩
      exact fun h => ⟨h.1, (hentry (id, value)).mpr h⟩

def Referred (runs : List (FinishedRun hashes limits)) (id : StrId) (value : DictionaryValue) :
    Prop :=
  ∃ run ∈ runs, run.Refers id value

theorem mergeDictionaries_spec (runs : List (FinishedRun hashes limits))
    (dictionary : FinishedDictionary) (hdict : dictionary.Allowed P)
    (hvalid : ∀ run ∈ runs, ∀ id value, run.Refers id value → value.Valid hashes id)
    (hrefers : ∀ run ∈ runs, ∀ id value, run.Refers id value → P id value) :
    Merges P dictionary (Referred runs)
      (mergeDictionaries hashes dictionary (runs.map FinishedRun.referenced)) := by
  induction runs generalizing dictionary with
  | nil => exact .refl hdict fun id value ⟨run, hrun, _⟩ => absurd hrun List.not_mem_nil
  | cons run runs ih =>
    rw [List.map_cons, mergeDictionaries]
    rcases mergeReferenced_spec run hdict (hvalid run List.mem_cons_self)
      (hrefers run List.mem_cons_self) with ⟨problem, heq, hexp⟩ | ⟨next, heq, hnext, hmem⟩
    · exact .inl ⟨problem, by simp only [heq], hexp⟩
    · simp only [heq]
      rcases ih next hnext (fun other hother => hvalid other (List.mem_cons_of_mem _ hother))
        (fun other hother => hrefers other (List.mem_cons_of_mem _ hother)) with
        herror | ⟨after, hok, hafter, hmem'⟩
      · exact .inl herror
      · refine .inr ⟨after, hok, hafter, fun id value hpair => hmem' id value ?_⟩
        rcases hpair with hold | ⟨other, hother, h⟩
        · exact .inl (hmem id value (.inl hold))
        · rcases List.mem_cons.mp hother with rfl | htail
          · exact .inl (hmem id value (.inr h))
          · exact .inr ⟨other, htail, h⟩

/-- Some referenced id is a string in one of the segments and a blob in another. -/
def Clash (runs : List (FinishedRun hashes limits)) : Prop :=
  ∃ left ∈ runs, ∃ right ∈ runs, ∃ (id : StrId) (string blob : DictionaryValue),
    left.Refers id string ∧ string.placement = .strings ∧
    right.Refers id blob ∧ blob.placement = .blobs

theorem functional_refers (hinj : IdInjective hashes V)
    (hV : ∀ run ∈ runs, ∀ step ∈ run.steps, step.values ⊆ V) :
    Functional (Referred runs) ↔ ¬Clash runs := by
  constructor
  · rintro h ⟨left, hleft, right, hright, id, string, blob, hstring, hs, hblob, hb⟩
    have heq := h id string blob ⟨left, hleft, hstring⟩ ⟨right, hright, hblob⟩
    rw [heq, hb] at hs
    cases hs
  · rintro h id u v ⟨left, hleft, hu⟩ ⟨right, hright, hv⟩
    refine StoredAs.eq_of_placement hinj (left.storedAs hinj (hV left hleft) hu.2)
      (right.storedAs hinj (hV right hright) hv.2) ?_
    cases hpu : u.placement with
    | strings =>
      cases hpv : v.placement with
      | strings => rfl
      | blobs => exact absurd ⟨left, hleft, right, hright, id, u, v, hu, hpu, hv, hpv⟩ h
    | blobs =>
      cases hpv : v.placement with
      | strings => exact absurd ⟨right, hright, left, hleft, id, v, u, hv, hpv, hu, hpu⟩ h
      | blobs => rfl

/-- A conflict is reported only for a referenced value that two segments hold in
different forms, and no merge with such a value succeeds. -/
theorem mergeDictionaries_conflicts {runs : List (FinishedRun hashes limits)}
    (hinj : IdInjective hashes {bytes | ∃ run ∈ runs, ∃ step ∈ run.steps, bytes ∈ step.values}) :
    (∀ problem, mergeDictionaries hashes FinishedDictionary.default
        (runs.map FinishedRun.referenced) = .error problem → problem.Expected (Clash runs)) ∧
      (Clash runs → ∃ problem, mergeDictionaries hashes FinishedDictionary.default
        (runs.map FinishedRun.referenced) = .error problem) := by
  have hV : ∀ run ∈ runs, ∀ step ∈ run.steps,
      step.values ⊆ {bytes | ∃ run ∈ runs, ∃ step ∈ run.steps, bytes ∈ step.values} :=
    fun run hrun step hstep bytes hbytes => ⟨run, hrun, step, hstep, hbytes⟩
  have hmerges := mergeDictionaries_spec (P := Referred runs) runs FinishedDictionary.default
    FinishedDictionary.default_allowed
    (fun run hrun id value h => (run.storedAs hinj (hV run hrun) h.2).valid)
    (fun run hrun id value h => ⟨run, hrun, h⟩)
  rw [Merges, functional_refers hinj hV, not_not] at hmerges
  rcases hmerges with ⟨problem, heq, hexp⟩ | ⟨after, heq, hallowed, hmem⟩
  · refine ⟨fun other hother => ?_, fun _ => ⟨problem, heq⟩⟩
    rw [heq] at hother
    cases hother
    exact hexp
  · refine ⟨fun problem h => absurd (heq.symm.trans h) (by simp), fun hclash => ?_⟩
    -- A merged dictionary has one value for an id, so it has both forms of none.
    have hfunctional : Functional (Referred runs) := fun id left right hleft hright =>
      Option.some.inj ((hmem id left (.inr hleft)).symm.trans (hmem id right (.inr hright)))
    exact absurd hclash ((functional_refers hinj hV).mp hfunctional)

/-! ## One value in two forms -/

def planRun (kind : Kind) (dictionary : FinishedDictionary)
    (finished : normalizeDictionary knownHashes (Run.finish (SegmentRun.step knownHashes)
      (SegmentRun.new DictLimits.default) [.call kind planBytes, .flush]).windows =
        .ok dictionary) : FinishedRun knownHashes DictLimits.default :=
  { steps := [.call kind planBytes, .flush], dictionary := dictionary, finished := finished
    dictionaryIds := [198643258655125820]
    order := { intoEntries := fun dictionary => dictionary.byId.toList, perm := fun _ => .refl _ } }

def planId : StrId := ⟨198643258655125820, by decide⟩

/-- `plan` as a string in one segment and as a blob in the next. -/
def twoForms : List (FinishedRun knownHashes DictLimits.default) :=
  [planRun .intern { FinishedDictionary.default with
      values := (∅ : Std.TreeMap StrId DictionaryValue).insert planId (.string planBytes)
      stringRows := 1, stringBytes := 4 } rfl,
    planRun .internBlob { FinishedDictionary.default with
      values := (∅ : Std.TreeMap StrId DictionaryValue).insert planId
        (.blob planBytes 4 false none)
      blobRows := 1, blobBytes := 4 } rfl]

theorem twoForms_conflict :
    mergeDictionaries knownHashes FinishedDictionary.default
      (twoForms.map FinishedRun.referenced) =
        .error (.write (.dictionaryConflict 198643258655125820)) := rfl

theorem mergeDictionaries_conflicts_twoForms :
    ∃ problem, mergeDictionaries knownHashes FinishedDictionary.default
      (twoForms.map FinishedRun.referenced) = .error problem := by
  refine (mergeDictionaries_conflicts (knownHashes_injective.mono ?_)).2 ?_
  · rintro bytes ⟨run, hrun, step, hstep, hbytes⟩
    simp only [twoForms, List.mem_cons, List.not_mem_nil, or_false] at hrun
    rcases hrun with rfl | rfl <;> simp only [planRun, List.mem_cons, List.not_mem_nil, or_false]
        at hstep <;> rcases hstep with rfl | rfl <;> simp_all [SegmentStep.values]
  · exact ⟨_, List.mem_cons_self, _, List.mem_cons_of_mem _ List.mem_cons_self, planId,
      .string planBytes, .blob planBytes 4 false none, ⟨List.mem_cons_self, rfl⟩, rfl,
      ⟨List.mem_cons_self, rfl⟩, rfl⟩

end Slice
end Kronika
