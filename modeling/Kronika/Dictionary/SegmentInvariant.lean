/-
The representation invariant of `SegmentDicts` over whole runs.

A run makes any calls of the four kinds, and each of them may fail.  `Traced` is
the dictionaries of a run with two records that the code does not keep: the ids
and values its successful calls answered, and the ids a strict-hot call stored
first.  `Represents` is the invariant; no value is assumed to be told from another
by its id or by its digest.
-/
import Kronika.Dictionary.Refinement

namespace Kronika.Format
namespace SegmentDicts

variable {hashes : Hashes} {dicts : SegmentDicts} {id : StrId} {bytes : Bytes}
  {req : Requirements}

/-! ## One insertion -/

/-- Everything an insertion can do: fail without a change, merge its requirements
into a stored entry, or store a new one. -/
theorem insert_cases (hashes : Hashes) (dicts : SegmentDicts) (bytes : Bytes) (req : Requirements) :
    (∃ problem, dicts.insert hashes bytes req = (.error problem, dicts)) ∨
      (∃ id existing, StrId.of hashes bytes = some id ∧ dicts.entries[id]? = some existing ∧
        checkSameValue hashes id existing bytes = .ok () ∧
        (existing.req.merge req).conflicts existing.oversized = false ∧
        dicts.insert hashes bytes req = (.ok id, { dicts with
          entries := dicts.entries.modify id fun stored =>
            { stored with req := existing.req.merge req } })) ∨
      ∃ id, StrId.of hashes bytes = some id ∧ dicts.entries[id]? = none ∧
        req.conflicts (dicts.limits.oversized bytes) = false ∧
        (req.hotHard = false → dicts.HasRoom bytes) ∧
        dicts.insert hashes bytes req = (.ok id, { dicts with
          storedBytes := dicts.storedBytes + min bytes.length dicts.limits.truncateLimit
          entries := dicts.entries.insert id
            (Stored.ofValue hashes dicts.limits bytes req) }) := by
  cases hid : StrId.of hashes bytes with
  | none =>
    left
    exact ⟨_, by simp only [SegmentDicts.insert, hid]; rfl⟩
  | some id =>
    rw [insert_eq hid, tryInsert]
    cases hget : dicts.entries[id]? with
    | some existing =>
      dsimp only
      cases hcheck : checkSameValue hashes id existing bytes with
      | error problem => exact Or.inl ⟨problem, rfl⟩
      | ok done =>
        by_cases hc : (existing.req.merge req).conflicts existing.oversized = true
        · rw [if_pos hc]
          exact Or.inl ⟨_, rfl⟩
        · rw [if_neg hc]
          exact Or.inr (Or.inl ⟨id, existing, rfl, hget, hcheck, Bool.eq_false_iff.mpr hc, rfl⟩)
    | none =>
      dsimp only
      by_cases hc : req.conflicts (dicts.limits.oversized bytes) = true
      · rw [if_pos hc]
        exact Or.inl ⟨_, rfl⟩
      · rw [if_neg hc]
        split
        · exact Or.inl ⟨_, rfl⟩
        · rename_i hroom
          refine Or.inr (Or.inr ⟨id, rfl, hget, Bool.eq_false_iff.mpr hc, fun hsoft => ?_, rfl⟩)
          simp only [hsoft, Bool.not_false, Bool.true_and, decide_eq_true_eq, Nat.not_lt] at hroom
          exact hroom

/-- What is left of a truncated value to compare: its length and its digest. -/
def SameDigest (hashes : Hashes) (limits : DictLimits) (v w : Bytes) : Prop :=
  v = w ∨ limits.truncateLimit < w.length ∧ v.length = w.length ∧
    hashes.sha256 v = hashes.sha256 w

theorem sameDigest_of_check {limits : DictLimits} {v w : Bytes} {r : Requirements}
    (h : checkSameValue hashes id (Stored.ofValue hashes limits v r) w = .ok ()) :
    SameDigest hashes limits v w := by
  by_cases hlong : v.length > limits.truncateLimit
  · by_cases hsame : v.length = w.length ∧ hashes.sha256 w = hashes.sha256 v
    · exact Or.inr ⟨by omega, hsame.1, hsame.2.symm⟩
    · simp only [checkSameValue, Stored.ofValue, if_pos hlong, Bool.and_eq_true, beq_iff_eq] at h
      rw [if_neg hsame] at h
      exact absurd h (by simp)
  · by_cases hsame : v.length = w.length ∧ v = w
    · exact Or.inl hsame.2
    · simp only [checkSameValue, Stored.ofValue, if_neg hlong, Bool.and_eq_true, beq_iff_eq] at h
      rw [if_neg hsame] at h
      exact absurd h (by simp)

end SegmentDicts

variable {id : StrId}

theorem IsEntry.merge {hashes : Hashes} {limits : DictLimits} {v : Bytes}
    {existing : Stored} {req : Requirements} (h : IsEntry hashes limits v id existing)
    (hcalm : (existing.req.merge req).conflicts existing.oversized = false) :
    IsEntry hashes limits v id { existing with req := existing.req.merge req } := by
  have hoversized : existing.oversized = limits.oversized v := by
    rw [h.stored_eq]
    rfl
  rw [hoversized] at hcalm
  refine ⟨h.id_eq, ?_, hcalm⟩
  rw [h.stored_eq]
  rfl

/-! ## Runs -/

open Writer (Kind unflushedCall)

/-- The dictionaries of a run, every id and value its successful calls answered,
and the ids that a strict-hot call stored first. -/
structure Traced where
  dicts : SegmentDicts
  issued : List (StrId × Bytes)
  hotFirst : List StrId

namespace Traced

open SegmentDicts

def start (limits : DictLimits) : Traced :=
  { dicts := SegmentDicts.new limits, issued := [], hotFirst := [] }

def step (hashes : Hashes) (t : Traced) (call : Kind × Bytes) : Traced :=
  match unflushedCall hashes t.dicts call.1 call.2 with
  | (.error _, after) => { t with dicts := after }
  | (.ok answer, after) =>
    { dicts := after
      issued := (answer.1, call.2) :: t.issued
      hotFirst :=
        if call.1 = .internHot ∧ t.dicts.entries[answer.1]? = none then
          answer.1 :: t.hotFirst
        else t.hotFirst }

/-- The bytes of the entries that a strict-hot call stored first. -/
def hotFirstBytes (t : Traced) : Nat :=
  TreeMap.sumOver (fun id stored => if id ∈ t.hotFirst then stored.bytes.length else 0)
    t.dicts.entries

/-- What every step keeps. -/
structure Kept (hashes : Hashes) (limits : DictLimits) (t : Traced) : Prop where
  limits_eq : t.dicts.limits = limits
  entry : ∀ id stored, t.dicts.entries[id]? = some stored →
    ∃ v, (id, v) ∈ t.issued ∧ IsEntry hashes limits v id stored
  stored : t.dicts.storedBytes =
    TreeMap.sumOver (fun _ stored => stored.bytes.length) t.dicts.entries
  cap : t.dicts.storedBytes ≤ usizeMax →
    t.dicts.storedBytes ≤ limits.maxTotalBytes + t.hotFirstBytes
  first : ∀ id ∈ t.hotFirst, t.dicts.entries[id]? ≠ none
  issued : ∀ id w, (id, w) ∈ t.issued → ∃ v stored, t.dicts.entries[id]? = some stored ∧
    IsEntry hashes limits v id stored ∧ SameDigest hashes limits v w

variable {hashes : Hashes} {limits : DictLimits} {t : Traced}

theorem start_kept (hashes : Hashes) (limits : DictLimits) : (start limits).Kept hashes limits where
  limits_eq := rfl
  entry id stored h := absurd h (by simp [start, SegmentDicts.new])
  stored := by simp [start, SegmentDicts.new]
  cap _ := by simp [start, SegmentDicts.new]
  first id h := absurd h (by simp [start])
  issued id w h := absurd h (by simp [start])

variable {bytes : Bytes} {kind : Kind}

theorem step_of_error {problem : DictError}
    (h : t.dicts.insert hashes bytes kind.req = (.error problem, t.dicts)) :
    t.step hashes (kind, bytes) = t := by
  have hcall : unflushedCall hashes t.dicts kind bytes = (.error problem, t.dicts) := by
    rw [Writer.unflushedCall_eq, Writer.unflushedResult, h]
    cases kind <;> rfl
  simp only [step, hcall]

theorem step_of_ok {after : SegmentDicts}
    (h : t.dicts.insert hashes bytes kind.req = (.ok id, after)) :
    t.step hashes (kind, bytes) =
      { dicts := after
        issued := (id, bytes) :: t.issued
        hotFirst :=
          if kind = .internHot ∧ t.dicts.entries[id]? = none then id :: t.hotFirst
          else t.hotFirst } := by
  have hcall : ∃ hot, unflushedCall hashes t.dicts kind bytes = (.ok (id, hot), after) := by
    rw [Writer.unflushedCall_eq, Writer.unflushedResult, h]
    cases kind <;> exact ⟨_, rfl⟩
  obtain ⟨hot, hcall⟩ := hcall
  simp only [step, hcall]

theorem Kept.merge {existing : Stored}
    (h : t.Kept hashes limits) (hget : t.dicts.entries[id]? = some existing)
    (hcheck : checkSameValue hashes id existing bytes = .ok ())
    (hcalm : (existing.req.merge kind.req).conflicts existing.oversized = false)
    (heq : t.dicts.insert hashes bytes kind.req = (.ok id, { t.dicts with
      entries := t.dicts.entries.modify id fun stored =>
        { stored with req := existing.req.merge kind.req } })) :
    (t.step hashes (kind, bytes)).Kept hashes limits := by
  obtain ⟨v, hv, hentry⟩ := h.entry id existing hget
  have hfirst : ¬ (kind = .internHot ∧ t.dicts.entries[id]? = none) := by
    rw [hget]
    exact fun hnone => absurd hnone.2 (by simp)
  have hself : (t.dicts.entries.modify id fun stored =>
      { stored with req := existing.req.merge kind.req })[id]? =
        some { existing with req := existing.req.merge kind.req } := by
    rw [Std.TreeMap.getElem?_modify, if_pos Std.ReflCmp.compare_self, hget, Option.map_some]
  have hother : ∀ j, j ≠ id → (t.dicts.entries.modify id fun stored =>
      { stored with req := existing.req.merge kind.req })[j]? = t.dicts.entries[j]? := by
    intro j hj
    rw [Std.TreeMap.getElem?_modify, if_neg (fun he => hj (Std.LawfulEqCmp.eq_of_compare he).symm)]
  -- Merging requirements changes no stored bytes, so no sum of lengths changes.
  have hsum : ∀ weight : StrId → Nat → Nat,
      TreeMap.sumOver (fun j stored => weight j stored.bytes.length)
        (t.dicts.entries.modify id fun stored =>
          { stored with req := existing.req.merge kind.req }) =
      TreeMap.sumOver (fun j stored => weight j stored.bytes.length) t.dicts.entries := by
    intro weight
    refine TreeMap.sumOver_congr fun j => ?_
    by_cases hj : j = id
    · rw [hj, hself, hget]
      rfl
    · rw [hother j hj]
  have hmerged := hentry.merge hcalm
  rw [step_of_ok heq, if_neg hfirst]
  constructor
  · exact h.limits_eq
  · intro j stored hj
    by_cases hji : j = id
    · rw [hji, hself] at hj
      rw [hji, ← Option.some.inj hj]
      exact ⟨v, List.mem_cons_of_mem _ hv, hmerged⟩
    · rw [hother j hji] at hj
      obtain ⟨u, hu, hold⟩ := h.entry j stored hj
      exact ⟨u, List.mem_cons_of_mem _ hu, hold⟩
  · exact h.stored.trans (hsum fun _ len => len).symm
  · intro hfits
    have hcap := h.cap hfits
    have hbytes := hsum fun j len => if j ∈ t.hotFirst then len else 0
    unfold hotFirstBytes at hcap ⊢
    rw [hbytes]
    exact hcap
  · intro j hj
    by_cases hji : j = id
    · rw [hji, hself]
      exact Option.some_ne_none _
    · rw [hother j hji]
      exact h.first j hj
  · intro j w hmem
    rcases List.mem_cons.mp hmem with heq | hold
    · obtain ⟨rfl, rfl⟩ := Prod.mk.inj heq
      refine ⟨v, _, hself, hmerged, ?_⟩
      rw [hentry.stored_eq] at hcheck
      exact sameDigest_of_check hcheck
    · obtain ⟨u, stored, hj, hissued, hsame⟩ := h.issued j w hold
      by_cases hji : j = id
      · rw [hji, hget] at hj
        obtain rfl := Option.some.inj hj
        exact ⟨u, _, by rw [hji, hself], hji ▸ (hji ▸ hissued).merge hcalm, hsame⟩
      · exact ⟨u, stored, by rw [hother j hji, hj], hissued, hsame⟩

theorem length_ofValue (limits : DictLimits) (bytes : Bytes) (req : Requirements) :
    (Stored.ofValue hashes limits bytes req).bytes.length =
      min bytes.length limits.truncateLimit := by
  by_cases hlong : bytes.length > limits.truncateLimit
  · simp only [Stored.ofValue, if_pos hlong, List.length_take]
    omega
  · simp only [Stored.ofValue, if_neg hlong]
    omega

theorem Kept.store (h : t.Kept hashes limits) (hid : StrId.of hashes bytes = some id)
    (hget : t.dicts.entries[id]? = none)
    (hcalm : kind.req.conflicts (t.dicts.limits.oversized bytes) = false)
    (hroom : kind.req.hotHard = false → t.dicts.HasRoom bytes)
    (heq : t.dicts.insert hashes bytes kind.req = (.ok id, { t.dicts with
      storedBytes := t.dicts.storedBytes + min bytes.length t.dicts.limits.truncateLimit
      entries := t.dicts.entries.insert id
        (Stored.ofValue hashes t.dicts.limits bytes kind.req) })) :
    (t.step hashes (kind, bytes)).Kept hashes limits := by
  rw [step_of_ok heq]
  unfold HasRoom at hroom
  rw [h.limits_eq] at hcalm hroom ⊢
  have hlen : (Stored.ofValue hashes limits bytes kind.req).bytes.length = _ :=
    length_ofValue limits bytes kind.req
  have hnew : IsEntry hashes limits bytes id (Stored.ofValue hashes limits bytes kind.req) :=
    ⟨hid, rfl, hcalm⟩
  have hself := TreeMap.getElem?_insert_self t.dicts.entries id
    (Stored.ofValue hashes limits bytes kind.req)
  have hother := fun j => TreeMap.getElem?_insert_ne t.dicts.entries (k := id) (j := j)
    (Stored.ofValue hashes limits bytes kind.req)
  generalize Stored.ofValue hashes limits bytes kind.req = stored at *
  have hpresent : ∀ j other, t.dicts.entries[j]? = some other → j ≠ id := by
    rintro j other hj rfl
    rw [hget] at hj
    exact absurd hj (by simp)
  constructor
  · exact h.limits_eq
  · intro j other hj
    by_cases hji : j = id
    · rw [hji, hself] at hj
      rw [hji, ← Option.some.inj hj]
      exact ⟨bytes, List.mem_cons_self, hnew⟩
    · rw [hother j hji] at hj
      obtain ⟨v, hv, hold⟩ := h.entry j other hj
      exact ⟨v, List.mem_cons_of_mem _ hv, hold⟩
  · have hsum := TreeMap.sumOver_insert_of_none (f := fun _ stored => stored.bytes.length)
      (g := fun _ stored => stored.bytes.length) stored hget (fun _ _ _ _ => rfl)
    rw [hsum, ← h.stored, hlen]
  · intro hfits
    dsimp only at hfits ⊢
    have hold := h.cap (by omega)
    -- A strict-hot entry is counted apart; any other one found room under the cap.
    by_cases hhot : kind = .internHot
    · have hsum := TreeMap.sumOver_insert_of_none
        (f := fun id stored => if id ∈ t.hotFirst then stored.bytes.length else 0)
        (g := fun j stored => if j ∈ id :: t.hotFirst then stored.bytes.length else 0)
        stored hget (fun j other hj _ => by simp [hj])
      simp only [hotFirstBytes, if_pos (show kind = .internHot ∧ t.dicts.entries[id]? = none from
        ⟨hhot, hget⟩)] at hold ⊢
      rw [hsum, if_pos List.mem_cons_self]
      omega
    · have hsoft : kind.req.hotHard = false := by
        cases kind <;> first | rfl | exact absurd rfl hhot
      have hle := hroom hsoft
      unfold saturatingAdd at hle
      omega
  · intro j hj
    by_cases hji : j = id
    · rw [hji, hself]
      exact Option.some_ne_none _
    · rw [hother j hji]
      refine h.first j ?_
      split at hj
      · exact (List.mem_cons.mp hj).resolve_left hji
      · exact hj
  · intro j w hmem
    rcases List.mem_cons.mp hmem with heq | hold
    · obtain ⟨rfl, rfl⟩ := Prod.mk.inj heq
      exact ⟨_, stored, hself, hnew, Or.inl rfl⟩
    · obtain ⟨v, other, hj, hissued, hsame⟩ := h.issued j w hold
      exact ⟨v, other, by rw [hother j (hpresent j other hj), hj], hissued, hsame⟩

theorem Kept.step (h : t.Kept hashes limits) (call : Kind × Bytes) :
    (t.step hashes call).Kept hashes limits := by
  obtain ⟨kind, bytes⟩ := call
  rcases insert_cases hashes t.dicts bytes kind.req with
    ⟨problem, heq⟩ | ⟨id, existing, _, hget, hcheck, hcalm, heq⟩ |
    ⟨id, hid, hget, hcalm, hroom, heq⟩
  · rw [step_of_error heq]
    exact h
  · exact h.merge hget hcheck hcalm heq
  · exact h.store hid hget hcalm hroom heq

theorem run_kept (hashes : Hashes) (limits : DictLimits) (calls : List (Kind × Bytes)) :
    (Run.finish (step hashes) (start limits) calls).Kept hashes limits := by
  have hany : Run.Along (fun _ _ => True) (step hashes) (start limits) calls :=
    Run.Along.of_forall fun _ _ _ => trivial
  exact Run.invariant (fun _ call _ h _ => h.step call) (start_kept hashes limits) hany

theorem run_dicts (hashes : Hashes) (limits : DictLimits) (calls : List (Kind × Bytes)) :
    (Run.finish (step hashes) (start limits) calls).dicts =
      Run.finish (fun dicts call => (unflushedCall hashes dicts call.1 call.2).2)
        (SegmentDicts.new limits) calls := by
  have hstep : ∀ (t : Traced) (call : Kind × Bytes),
      (t.step hashes call).dicts = (unflushedCall hashes t.dicts call.1 call.2).2 := by
    intro t call
    unfold step
    split <;> rename_i heq <;> rw [heq]
  have hrun : ∀ t : Traced, (Run.finish (step hashes) t calls).dicts =
      Run.finish (fun dicts call => (unflushedCall hashes dicts call.1 call.2).2)
        t.dicts calls := by
    induction calls with
    | nil => exact fun _ => rfl
    | cons call calls ih =>
      intro t
      rw [Run.finish_cons, Run.finish_cons, ih, hstep]
  exact hrun (start limits)

end Traced

/-! ## The rows of the three dictionaries -/

namespace SegmentDicts

variable {dicts : SegmentDicts} {id : StrId} {bytes : Bytes}

theorem strings_blobs_perm (dicts : SegmentDicts) :
    (dicts.strings.map Prod.fst ++ dicts.blobs.map BlobEntry.strId).Perm dicts.entries.keys := by
  have hsplit := (List.filter_append_perm (fun entry : StrId × Stored => !entry.2.isBlob)
    dicts.entries.toList).map Prod.fst
  simp only [Bool.not_not, List.map_append, Std.TreeMap.map_fst_toList_eq_keys] at hsplit
  rw [strings, blobs, List.map_map, List.map_map]
  exact hsplit

theorem strings_disjoint_blobs (dicts : SegmentDicts) :
    (dicts.strings.map Prod.fst).Disjoint (dicts.blobs.map BlobEntry.strId) := by
  have hnodup := (strings_blobs_perm dicts).nodup_iff.mpr (TreeMap.nodup_keys dicts.entries)
  exact List.disjoint_of_nodup_append hnodup

theorem hotStrings_sublist (dicts : SegmentDicts) : dicts.hotStrings.Sublist dicts.strings := by
  refine List.Sublist.map _ (List.monotone_filter_right _ fun entry hhot => ?_)
  simp only [Stored.isHot, Bool.and_eq_true] at hhot
  exact hhot.1

theorem mem_strings : (id, bytes) ∈ dicts.strings ↔
    ∃ stored, dicts.entries[id]? = some stored ∧ stored.isBlob = false ∧ stored.bytes = bytes := by
  rw [strings, List.mem_map]
  constructor
  · rintro ⟨entry, hentry, heq⟩
    obtain ⟨hmem, hplace⟩ := List.mem_filter.mp hentry
    obtain ⟨rfl, hbytes⟩ := Prod.mk.inj heq
    exact ⟨entry.2, Std.TreeMap.mem_toList_iff_getElem?_eq_some.mp hmem,
      by simpa using hplace, hbytes⟩
  · rintro ⟨stored, hget, hplace, rfl⟩
    refine ⟨(id, stored), List.mem_filter.mpr ⟨?_, by simp [hplace]⟩, rfl⟩
    exact Std.TreeMap.mem_toList_iff_getElem?_eq_some.mpr hget

end SegmentDicts

/-- What resolving `id` has to give for the value `w`.  The prefix kept of a
truncated value is one of a value with the same length and digest, so it is that
of `w` unless SHA-256 has a collision. -/
def Resolved.Shows (hashes : Hashes) (limits : DictLimits) (id : StrId) (w : Bytes) :
    Resolved → Prop
  | .str bytes => bytes = w
  | .blob entry => entry.strId = id ∧ entry.fullLen = w.length ∧
      entry.truncated = decide (limits.truncateLimit < w.length) ∧
      entry.fullSha256 =
        (if limits.truncateLimit < w.length then some (hashes.sha256 w) else none) ∧
      ∃ v, SegmentDicts.SameDigest hashes limits v w ∧
        entry.storedBytes = v.take limits.truncateLimit

/-- The representation invariant of the dictionaries of a run. -/
structure Represents (hashes : Hashes) (limits : DictLimits) (t : Traced) : Prop where
  partition : (t.dicts.strings.map Prod.fst ++ t.dicts.blobs.map BlobEntry.strId).Perm
    t.dicts.entries.keys
  disjoint : (t.dicts.strings.map Prod.fst).Disjoint (t.dicts.blobs.map BlobEntry.strId)
  hot : t.dicts.hotStrings.Sublist t.dicts.strings
  stored : t.dicts.storedBytes =
    TreeMap.sumOver (fun _ stored => stored.bytes.length) t.dicts.entries
  /-- `stored_bytes` is a `usize`. -/
  cap : t.dicts.storedBytes ≤ usizeMax →
    t.dicts.storedBytes - t.hotFirstBytes ≤ limits.maxTotalBytes
  digest : ∀ (id : StrId) (stored : Stored), t.dicts.entries[id]? = some stored →
    (stored.fullSha256.isSome ↔ limits.truncateLimit < stored.fullLen)
  truncated : ∀ (id : StrId) (stored : Stored), t.dicts.entries[id]? = some stored →
    limits.truncateLimit < stored.fullLen → ∃ v, (id, v) ∈ t.issued ∧
      v.length = stored.fullLen ∧ stored.fullSha256 = some (hashes.sha256 v) ∧
      stored.bytes = v.take limits.truncateLimit
  complete : ∀ id bytes, (id, bytes) ∈ t.dicts.strings → (id, bytes) ∈ t.issued ∧
    StrId.of hashes bytes = some id ∧ bytes.length < limits.blobThreshold
  resolves : ∀ id w, (id, w) ∈ t.issued →
    ∃ resolved, t.dicts.resolve id = some resolved ∧ resolved.Shows hashes limits id w

namespace Traced

open SegmentDicts

variable {hashes : Hashes} {limits : DictLimits} {t : Traced}

theorem isSome_ofValue (v : Bytes) (req : Requirements) :
    (Stored.ofValue hashes limits v req).fullSha256.isSome ↔ limits.truncateLimit < v.length := by
  by_cases hlong : v.length > limits.truncateLimit <;> simp [Stored.ofValue]

theorem bytes_ofValue (v : Bytes) (req : Requirements) :
    (Stored.ofValue hashes limits v req).bytes = v.take limits.truncateLimit := by
  by_cases hlong : v.length > limits.truncateLimit
  · simp only [Stored.ofValue, if_pos hlong]
  · simp only [Stored.ofValue, if_neg hlong]
    exact (List.take_of_length_le (by omega)).symm

theorem SameDigest.length {v w : Bytes} (h : SameDigest hashes limits v w) :
    v.length = w.length := by
  rcases h with rfl | ⟨_, hlen, _⟩
  · rfl
  · exact hlen

/-- A value that placement keeps out of `dict.blobs` is stored whole. -/
theorem bytes_of_strings {v : Bytes} {stored : Stored}
    (h : IsEntry hashes limits v id stored) (hplace : stored.isBlob = false) :
    stored.bytes = v ∧ v.length < limits.blobThreshold := by
  rw [h.stored_eq] at hplace ⊢
  have hshort : v.length < limits.blobThreshold := by
    simp only [Stored.isBlob, Stored.ofValue, DictLimits.oversized, Bool.or_eq_false_iff,
      decide_eq_false_iff_not] at hplace
    omega
  have hle := limits.threshold_le
  rw [bytes_ofValue]
  exact ⟨List.take_of_length_le (by omega), hshort⟩

theorem Kept.resolves (h : t.Kept hashes limits) {id : StrId} {w : Bytes}
    (hissued : (id, w) ∈ t.issued) :
    ∃ resolved, t.dicts.resolve id = some resolved ∧ resolved.Shows hashes limits id w := by
  obtain ⟨v, stored, hget, hentry, hsame⟩ := h.issued id w hissued
  refine ⟨_, by rw [resolve, hget, Option.map_some], ?_⟩
  by_cases hplace : stored.isBlob = true
  · rw [if_pos hplace]
    have hlen := SameDigest.length hsame
    have hsome : (Stored.ofValue hashes limits v stored.req).fullSha256.isSome ↔ _ :=
      isSome_ofValue v stored.req
    have hbytes : (Stored.ofValue hashes limits v stored.req).bytes = _ :=
      bytes_ofValue v stored.req
    rw [← hentry.stored_eq] at hsome hbytes
    have hfull : stored.fullLen = w.length := by
      rw [hentry.stored_eq]
      exact hlen
    refine ⟨rfl, hfull, ?_, ?_, v, hsame, hbytes⟩
    · rw [← hlen]
      exact Bool.eq_iff_iff.mpr (hsome.trans decide_eq_true_iff.symm)
    · have hsha : (if limits.truncateLimit < v.length then some (hashes.sha256 v) else none) =
          if limits.truncateLimit < w.length then some (hashes.sha256 w) else none := by
        rcases hsame with rfl | ⟨hlong, _, hsha⟩
        · rfl
        · rw [hlen, hsha]
      rw [← hsha]
      rw [hentry.stored_eq]
      rfl
  · rw [if_neg hplace]
    obtain ⟨hbytes, hshort⟩ := bytes_of_strings hentry (Bool.eq_false_iff.mpr hplace)
    have hle := limits.threshold_le
    rcases hsame with rfl | ⟨hlong, hlen, _⟩
    · exact hbytes
    · omega

theorem Kept.represents (h : t.Kept hashes limits) : Represents hashes limits t where
  partition := strings_blobs_perm t.dicts
  disjoint := strings_disjoint_blobs t.dicts
  hot := hotStrings_sublist t.dicts
  stored := h.stored
  cap hfits := by
    have hcap := h.cap hfits
    omega
  digest id stored hget := by
    obtain ⟨v, _, hentry⟩ := h.entry id stored hget
    rw [hentry.stored_eq]
    exact isSome_ofValue v stored.req
  truncated id stored hget hlong := by
    obtain ⟨v, hv, hentry⟩ := h.entry id stored hget
    rw [hentry.stored_eq] at hlong ⊢
    refine ⟨v, hv, rfl, ?_, bytes_ofValue v stored.req⟩
    exact if_pos hlong
  complete id bytes hrow := by
    obtain ⟨stored, hget, hplace, hbytes⟩ := mem_strings.mp hrow
    obtain ⟨v, hv, hentry⟩ := h.entry id stored hget
    obtain ⟨hwhole, hshort⟩ := bytes_of_strings hentry hplace
    have heq : v = bytes := hwhole.symm.trans hbytes
    rw [heq] at hv hentry hshort
    exact ⟨hv, hentry.id_eq, hshort⟩
  resolves _ _ hissued := h.resolves hissued

end Traced

/-- After any calls, failed ones among them, the dictionaries satisfy the
representation invariant. -/
theorem segmentDicts_represents (hashes : Hashes) (limits : DictLimits)
    (calls : List (Kind × Bytes)) :
    (Run.finish (Traced.step hashes) (Traced.start limits) calls).dicts =
        Run.finish (fun dicts call => (unflushedCall hashes dicts call.1 call.2).2)
          (SegmentDicts.new limits) calls ∧
      Represents hashes limits (Run.finish (Traced.step hashes) (Traced.start limits) calls) :=
  ⟨Traced.run_dicts hashes limits calls, (Traced.run_kept hashes limits calls).represents⟩

end Kronika.Format
