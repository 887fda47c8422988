/-
The order of the calls does not change the dictionaries.

A run makes calls that all succeed.  `Gathers` says what the dictionaries are after
them: the entry of a value is the one `Stored.ofValue` builds from the requirements
of every call with that value, merged, and no other id has an entry.  The merged
requirements do not depend on the order of the calls, so neither do the entries,
and everything the dictionaries report is read off the entries.
-/
import Kronika.Dictionary.Refinement

namespace Kronika.Format

open Writer (Kind unflushedCall)

namespace Requirements

theorem merge_right_comm (a b c : Requirements) : (a.merge b).merge c = (a.merge c).merge b := by
  rw [merge_assoc, merge_assoc]
  congr 1
  simp only [merge, Bool.or_comm]

end Requirements

abbrev Call := Kind × Bytes

namespace Call

/-- The requirements of one call, merged into those collected for `v`. -/
def collect (v : Bytes) (req : Requirements) (call : Call) : Requirements :=
  if call.2 = v then req.merge call.1.req else req

/-- The requirements of all calls with the value `v`. -/
def gathered (calls : List Call) (v : Bytes) : Requirements := calls.foldl (collect v) {}

theorem collect_right_comm (v : Bytes) (req : Requirements) (a b : Call) :
    collect v (collect v req a) b = collect v (collect v req b) a := by
  unfold collect
  by_cases ha : a.2 = v
  · by_cases hb : b.2 = v
    · simp only [ha, hb, if_true, Requirements.merge_right_comm req a.1.req]
    · simp only [hb, if_false]
  · by_cases hb : b.2 = v
    · simp only [ha, if_false]
    · simp only [ha, if_false]

theorem gathered_perm {calls calls' : List Call} (h : calls.Perm calls') (v : Bytes) :
    gathered calls v = gathered calls' v :=
  h.foldl_eq' (fun a _ b _ req => collect_right_comm v req a b) {}

theorem gathered_append_same (done : List Call) (kind : Kind) (v : Bytes) :
    gathered (done ++ [(kind, v)]) v = (gathered done v).merge kind.req := by
  simp [gathered, collect]

theorem gathered_append_other (done : List Call) (call : Call) {v : Bytes} (h : call.2 ≠ v) :
    gathered (done ++ [call]) v = gathered done v := by
  simp [gathered, collect, h]

theorem gathered_eq_empty {calls : List Call} {v : Bytes} (h : ∀ call ∈ calls, call.2 ≠ v) :
    gathered calls v = {} := by
  unfold gathered
  induction calls with
  | nil => rfl
  | cons call calls ih =>
    rw [List.foldl_cons, collect, if_neg (h call List.mem_cons_self)]
    exact ih fun later hlater => h later (List.mem_cons_of_mem call hlater)

end Call

namespace SegmentDicts

variable {hashes : Hashes} {V : Set Bytes} {limits : DictLimits} {dicts : SegmentDicts}

def afterCall (hashes : Hashes) (dicts : SegmentDicts) (call : Call) : SegmentDicts :=
  (unflushedCall hashes dicts call.1 call.2).2

def Answers (hashes : Hashes) (dicts : SegmentDicts) (call : Call) : Prop :=
  (unflushedCall hashes dicts call.1 call.2).1.isOk = true

theorem Answers.insert {kind : Kind} {bytes : Bytes} (h : Answers hashes dicts (kind, bytes)) :
    ∃ id, dicts.insert hashes bytes kind.req = (.ok id, dicts.afterCall hashes (kind, bytes)) := by
  rw [Answers, Writer.unflushedCall_eq, Writer.unflushedResult] at h
  have hafter : dicts.afterCall hashes (kind, bytes) = (dicts.insert hashes bytes kind.req).2 := by
    rw [afterCall, Writer.unflushedCall_eq]
  rw [hafter]
  generalize dicts.insert hashes bytes kind.req = outcome at h ⊢
  obtain ⟨result, after⟩ := outcome
  cases result with
  | error problem => cases kind <;> cases h
  | ok id => exact ⟨id, rfl⟩

/-! ## The entries after a run -/

/-- The dictionaries hold the values of `done` with their collected requirements,
and nothing else. -/
structure Gathers (hashes : Hashes) (limits : DictLimits) (dicts : SegmentDicts)
    (done : List Call) : Prop where
  limits_eq : dicts.limits = limits
  entry : ∀ call ∈ done, ∀ id, StrId.of hashes call.2 = some id →
    dicts.entries[id]? = some (Stored.ofValue hashes limits call.2 (Call.gathered done call.2))
  absent : ∀ id, (∀ call ∈ done, StrId.of hashes call.2 ≠ some id) → dicts.entries[id]? = none

theorem new_gathers (limits : DictLimits) : Gathers hashes limits (SegmentDicts.new limits) [] where
  limits_eq := rfl
  entry call h := absurd h List.not_mem_nil
  absent id _ := by simp [SegmentDicts.new]

/-- A successful call on the entries of `done` makes the one change an insertion can
make, and what is collected for its value is what its entry has collected. -/
theorem Gathers.updated {done : List Call} {kind : Kind} {bytes : Bytes}
    (h : Gathers hashes limits dicts done) (hinj : IdInjective hashes V)
    (hdone : ∀ call ∈ done, call.2 ∈ V) (hbytes : bytes ∈ V)
    (hok : Answers hashes dicts (kind, bytes)) :
    ∃ id, StrId.of hashes bytes = some id ∧ dicts.reqOf id = Call.gathered done bytes ∧
      Updated hashes dicts (dicts.afterCall hashes (kind, bytes)) id bytes kind.req := by
  obtain ⟨answer, hinsert⟩ := hok.insert
  cases hid : StrId.of hashes bytes with
  | none =>
    rw [SegmentDicts.insert, hid] at hinsert
    cases (Prod.mk.inj hinsert).1
  | some id =>
    refine ⟨id, rfl, ?_⟩
    by_cases hseen : ∃ call ∈ done, call.2 = bytes
    · obtain ⟨call, hcall, rfl⟩ := hseen
      have hentry := h.entry call hcall id hid
      refine ⟨reqOf_of_getElem? hentry, ?_⟩
      rw [← h.limits_eq] at hentry
      rcases insert_same kind.req hid hentry with ⟨_, hrefused⟩ | ⟨after, heq, hup⟩
      · rw [hrefused] at hinsert
        cases (Prod.mk.inj hinsert).1
      · rw [heq] at hinsert
        rw [← (Prod.mk.inj hinsert).2]
        exact hup
    · -- No other value has the id, so nothing is stored under it.
      have hnew : ∀ call ∈ done, call.2 ≠ bytes := fun call hcall heq => hseen ⟨call, hcall, heq⟩
      have hnone : dicts.entries[id]? = none := h.absent id fun call hcall hother =>
        hnew call hcall (hinj call.2 (hdone call hcall) bytes hbytes (hother.trans hid.symm))
      refine ⟨(reqOf_of_none hnone).trans (Call.gathered_eq_empty hnew).symm, ?_⟩
      rcases insert_absent kind.req hid hnone with ⟨_, hrefused⟩ | ⟨_, hrefused⟩ |
        ⟨after, heq, hup, _⟩
      · rw [hrefused] at hinsert
        cases (Prod.mk.inj hinsert).1
      · rw [hrefused] at hinsert
        cases (Prod.mk.inj hinsert).1
      · rw [heq] at hinsert
        rw [← (Prod.mk.inj hinsert).2]
        exact hup

theorem Gathers.step {done : List Call} {call : Call} (h : Gathers hashes limits dicts done)
    (hinj : IdInjective hashes V) (hdone : ∀ earlier ∈ done, earlier.2 ∈ V) (hV : call.2 ∈ V)
    (hok : Answers hashes dicts call) :
    Gathers hashes limits (dicts.afterCall hashes call) (done ++ [call]) := by
  obtain ⟨kind, bytes⟩ := call
  obtain ⟨id, hid, hreq, hup⟩ := h.updated hinj hdone hV hok
  have hentry : (dicts.afterCall hashes (kind, bytes)).entries[id]? =
      some (Stored.ofValue hashes limits bytes
        (Call.gathered (done ++ [(kind, bytes)]) bytes)) := by
    rw [hup.entry, hreq, h.limits_eq, Call.gathered_append_same]
  refine ⟨hup.limits.trans h.limits_eq, ?_, ?_⟩
  · intro earlier hearlier j hj
    by_cases hsame : bytes = earlier.2
    · rw [← hsame] at hj ⊢
      obtain rfl := Option.some.inj (hid.symm.trans hj)
      exact hentry
    · rcases List.mem_append.mp hearlier with hold | hnew
      · have hne : j ≠ id := fun he => hsame
          (hinj bytes hV earlier.2 (hdone earlier hold) (hid.trans (he ▸ hj.symm)))
        rw [hup.others j hne, h.entry earlier hold j hj,
          Call.gathered_append_other done (kind, bytes) hsame]
      · exact absurd (congrArg Prod.snd (List.mem_singleton.mp hnew)).symm hsame
  · intro j hj
    have hne : j ≠ id := fun he =>
      hj (kind, bytes) (List.mem_append_right done List.mem_cons_self) (he ▸ hid)
    rw [hup.others j hne]
    exact h.absent j fun earlier hearlier => hj earlier (List.mem_append_left _ hearlier)

theorem run_gathers {calls : List Call} (hinj : IdInjective hashes {v | ∃ call ∈ calls, call.2 = v})
    (hrun : Run.Along (Answers hashes) (afterCall hashes) (SegmentDicts.new limits) calls) :
    Gathers hashes limits
      (Run.finish (afterCall hashes) (SegmentDicts.new limits) calls) calls := by
  induction calls using List.reverseRecOn with
  | nil => exact new_gathers limits
  | append_singleton calls call ih =>
    obtain ⟨hbefore, hlast, _⟩ := Run.along_append.mp hrun
    have hbound : ∀ earlier ∈ calls, earlier.2 ∈ {v | ∃ c ∈ calls ++ [call], c.2 = v} :=
      fun earlier hearlier => ⟨earlier, List.mem_append_left _ hearlier, rfl⟩
    have hgathers := ih (hinj.mono fun v hv => by
      obtain ⟨earlier, hearlier, rfl⟩ := hv
      exact hbound earlier hearlier) hbefore
    rw [Run.finish_append]
    exact hgathers.step hinj hbound
      ⟨call, List.mem_append_right calls List.mem_cons_self, rfl⟩ hlast

theorem Gathers.entries_eq {dicts' : SegmentDicts} {calls calls' : List Call}
    (h : Gathers hashes limits dicts calls) (h' : Gathers hashes limits dicts' calls')
    (hperm : calls.Perm calls') (id : StrId) : dicts.entries[id]? = dicts'.entries[id]? := by
  by_cases hfound : ∃ call ∈ calls, StrId.of hashes call.2 = some id
  · obtain ⟨call, hcall, hid⟩ := hfound
    rw [h.entry call hcall id hid, h'.entry call (hperm.mem_iff.mp hcall) id hid,
      Call.gathered_perm hperm]
  · have hnone : ∀ call ∈ calls, StrId.of hashes call.2 ≠ some id :=
      fun call hcall hid => hfound ⟨call, hcall, hid⟩
    rw [h.absent id hnone, h'.absent id fun call hcall => hnone call (hperm.mem_iff.mpr hcall)]

/-! ## What the dictionaries report -/

/-- Everything a segment takes from its dictionaries. -/
structure SameContent (left right : SegmentDicts) : Prop where
  strings : left.strings = right.strings
  blobs : left.blobs = right.blobs
  hotStrings : left.hotStrings = right.hotStrings
  stats : left.stats = right.stats

theorem SameContent.of_entries {left right : SegmentDicts}
    (h : ∀ id : StrId, left.entries[id]? = right.entries[id]?) : SameContent left right := by
  have hequiv : left.entries.Equiv right.entries := .of_forall_constGet?_eq h
  have hlist : left.entries.toList = right.entries.toList := hequiv.toList_eq
  refine ⟨?_, ?_, ?_, ?_⟩
  · rw [SegmentDicts.strings, SegmentDicts.strings, hlist]
  · rw [SegmentDicts.blobs, SegmentDicts.blobs, hlist]
  · rw [SegmentDicts.hotStrings, SegmentDicts.hotStrings, hlist]
  · exact hequiv.foldl_eq

/-- Two orders of the same calls, each of which succeeds in both, leave the same
strings, blobs, hot strings and sizes. -/
theorem placement_order_independent {limits : DictLimits} {calls calls' : List Call}
    (hperm : calls.Perm calls')
    (hinj : IdInjective hashes {v | ∃ call ∈ calls, call.2 = v})
    (hrun : Run.Along (Answers hashes) (afterCall hashes) (SegmentDicts.new limits) calls)
    (hrun' : Run.Along (Answers hashes) (afterCall hashes) (SegmentDicts.new limits) calls') :
    SameContent (Run.finish (afterCall hashes) (SegmentDicts.new limits) calls)
      (Run.finish (afterCall hashes) (SegmentDicts.new limits) calls') := by
  have hinj' : IdInjective hashes {v | ∃ call ∈ calls', call.2 = v} := hinj.mono fun v hv => by
    obtain ⟨call, hcall, hv⟩ := hv
    exact ⟨call, hperm.mem_iff.mpr hcall, hv⟩
  exact .of_entries ((run_gathers hinj hrun).entries_eq (run_gathers hinj' hrun') hperm)

/-- A string that is softly hot first and a blob later, and a strict-hot one. -/
def blobLast : List Call :=
  [(.internHotBestEffort, planBytes), (.internHot, nameBytes), (.intern, planBytes),
    (.internBlob, planBytes)]

def blobFirst : List Call :=
  [(.internBlob, planBytes), (.intern, planBytes), (.internHot, nameBytes),
    (.internHotBestEffort, planBytes)]

theorem placement_order_independent_blobFirst :
    SameContent
      (Run.finish (afterCall knownHashes) (SegmentDicts.new DictLimits.default) blobLast)
      (Run.finish (afterCall knownHashes) (SegmentDicts.new DictLimits.default) blobFirst) := by
  refine placement_order_independent (by decide) (knownHashes_injective.mono ?_)
    ⟨rfl, rfl, rfl, rfl, trivial⟩ ⟨rfl, rfl, rfl, rfl, trivial⟩
  rintro v ⟨call, hcall, rfl⟩
  simp only [blobLast, List.mem_cons, List.not_mem_nil, or_false] at hcall
  rcases hcall with rfl | rfl | rfl | rfl <;> simp

end SegmentDicts

end Kronika.Format
