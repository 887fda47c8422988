/-
What an insertion does to the dictionaries.

`Sound` says that every entry is the entry of one value of `V`.  `Updated` names
the only change an accepted insertion makes, and `insert_same`, `insert_absent`
and `insert_other` say when it is accepted.  Everything later about the window of
an interner is derived from these and never unfolds `tryInsert`.
-/
import Kronika.Dictionary.Ledger

namespace Kronika.Format

namespace Requirements

theorem merge_empty (req : Requirements) : req.merge {} = req := by
  simp only [merge, Bool.or_false]

theorem empty_merge (req : Requirements) : merge {} req = req := by
  simp only [merge, Bool.false_or]

theorem merge_assoc (a b c : Requirements) : (a.merge b).merge c = a.merge (b.merge c) := by
  simp only [merge, Bool.or_assoc]

theorem merge_flags_self (req : Requirements) :
    (merge { blob := req.blob } { hotHard := req.hotHard }).merge { hotSoft := req.hotSoft } =
      req := by
  simp only [merge, Bool.or_false, Bool.false_or]

theorem merge_flags (r req : Requirements) :
    ((r.merge { blob := req.blob }).merge { hotHard := req.hotHard }).merge
      { hotSoft := req.hotSoft } = r.merge req := by
  simp only [merge, Bool.or_false]

theorem conflicts_mono {a b : Requirements} {oversized : Bool}
    (h : (a.merge b).conflicts oversized = false) : a.conflicts oversized = false := by
  simp only [conflicts, merge, Bool.and_eq_false_iff, Bool.or_eq_false_iff] at h ⊢
  rcases h with ⟨hhard, _⟩ | ⟨⟨hblob, _⟩, hov⟩
  · exact Or.inl hhard
  · exact Or.inr ⟨hblob, hov⟩

end Requirements

/-- The id is the id of `bytes`, and `stored` is what is kept for `bytes`. -/
structure IsEntry (hashes : Hashes) (limits : DictLimits) (bytes : Bytes) (id : StrId)
    (stored : Stored) : Prop where
  id_eq : StrId.of hashes bytes = some id
  stored_eq : stored = Stored.ofValue hashes limits bytes stored.req
  calm : stored.req.conflicts (limits.oversized bytes) = false

variable {r : Requirements}

namespace SegmentDicts

/-- Every entry is the entry of a value of `V`. -/
def Sound (hashes : Hashes) (V : Set Bytes) (dicts : SegmentDicts) : Prop :=
  ∀ id stored, dicts.entries[id]? = some stored →
    ∃ bytes ∈ V, IsEntry hashes dicts.limits bytes id stored

def reqOf (dicts : SegmentDicts) (id : StrId) : Requirements :=
  match dicts.entries[id]? with
  | none => {}
  | some stored => stored.req

/-- The same limits and the same entries. -/
structure Same (before after : SegmentDicts) : Prop where
  limits : after.limits = before.limits
  entries : ∀ id : StrId, after.entries[id]? = before.entries[id]?

theorem Same.refl (dicts : SegmentDicts) : Same dicts dicts := ⟨rfl, fun _ => rfl⟩

/-- What an accepted insertion of `bytes` with requirements `req` changes. -/
structure Updated (hashes : Hashes) (before after : SegmentDicts) (id : StrId) (bytes : Bytes)
    (req : Requirements) : Prop where
  limits : after.limits = before.limits
  entry : after.entries[id]? =
    some (Stored.ofValue hashes before.limits bytes ((before.reqOf id).merge req))
  others : ∀ j, j ≠ id → after.entries[j]? = before.entries[j]?
  calm : ((before.reqOf id).merge req).conflicts (before.limits.oversized bytes) = false

variable {hashes : Hashes} {V : Set Bytes} {dicts before after last : SegmentDicts}
variable {id : StrId} {bytes : Bytes} {req : Requirements}

variable {stored : Stored}

theorem reqOf_of_getElem? (h : dicts.entries[id]? = some stored) : dicts.reqOf id = stored.req := by
  simp only [reqOf, h]

theorem reqOf_of_none (h : dicts.entries[id]? = none) : dicts.reqOf id = {} := by
  simp only [reqOf, h]

theorem Updated.reqOf (h : Updated hashes before after id bytes req) :
    after.reqOf id = (before.reqOf id).merge req :=
  reqOf_of_getElem? h.entry

theorem Updated.trans {req' : Requirements} (h : Updated hashes before after id bytes req)
    (h' : Updated hashes after last id bytes req') :
    Updated hashes before last id bytes (req.merge req') where
  limits := h'.limits.trans h.limits
  entry := by rw [h'.entry, h.reqOf, h.limits, Requirements.merge_assoc]
  others j hj := (h'.others j hj).trans (h.others j hj)
  calm := by
    have hcalm := h'.calm
    rwa [h.reqOf, h.limits, Requirements.merge_assoc] at hcalm

theorem Updated.refl (h : dicts.entries[id]? = some (Stored.ofValue hashes dicts.limits bytes r))
    (hcalm : r.conflicts (dicts.limits.oversized bytes) = false) :
    Updated hashes dicts dicts id bytes {} where
  limits := rfl
  entry := by rw [reqOf_of_getElem? h, Requirements.merge_empty]; exact h
  others _ _ := rfl
  calm := by rw [reqOf_of_getElem? h, Requirements.merge_empty]; exact hcalm

theorem Updated.same (h : Updated hashes before after id bytes {})
    (hbefore : before.entries[id]? = some (Stored.ofValue hashes before.limits bytes r)) :
    Same before after where
  limits := h.limits
  entries j := by
    by_cases hj : j = id
    · rw [hj, h.entry, hbefore, reqOf_of_getElem? hbefore, Requirements.merge_empty]
      rfl
    · exact h.others j hj

theorem Updated.sound (h : Updated hashes before after id bytes req)
    (hsound : Sound hashes V before) (hV : bytes ∈ V) (hid : StrId.of hashes bytes = some id) :
    Sound hashes V after := by
  intro j stored hj
  by_cases hji : j = id
  · rw [hji, h.entry] at hj
    obtain rfl := Option.some.inj hj
    refine ⟨bytes, hV, ⟨hji ▸ hid, ?_, ?_⟩⟩
    · rw [h.limits]
      rfl
    · rw [h.limits]
      exact h.calm
  · rw [h.others j hji] at hj
    obtain ⟨v, hv, hentry⟩ := hsound j stored hj
    rw [h.limits.symm] at hentry
    exact ⟨v, hv, hentry⟩

theorem Same.sound (h : Same before after) (hsound : Sound hashes V before) :
    Sound hashes V after := by
  intro j stored hj
  rw [h.entries] at hj
  rw [h.limits]
  exact hsound j stored hj

theorem new_sound (limits : DictLimits) : Sound hashes V (SegmentDicts.new limits) := by
  intro id stored h
  exact absurd h (by simp [SegmentDicts.new])

/-! ## The collision check -/

theorem checkSameValue_self (hashes : Hashes) (limits : DictLimits) (id : StrId) (bytes : Bytes)
    (r : Requirements) :
    checkSameValue hashes id (Stored.ofValue hashes limits bytes r) bytes = .ok () := by
  by_cases h : bytes.length > limits.truncateLimit <;>
    simp [checkSameValue, Stored.ofValue, h]

theorem checkSameValue_other (limits : DictLimits) {v : Bytes} (hsep : Separated hashes V)
    (hv : v ∈ V) (hbytes : bytes ∈ V) (hvid : StrId.of hashes v = some id)
    (hid : StrId.of hashes bytes = some id) (hne : v ≠ bytes) (r : Requirements) :
    checkSameValue hashes id (Stored.ofValue hashes limits v r) bytes =
      .error (.collision id.raw) := by
  have hdiffer : v.length = bytes.length → check16 hashes v ≠ check16 hashes bytes :=
    fun hlen hcheck => hne (hsep v hv bytes hbytes (hvid.trans hid.symm) hlen hcheck)
  have hsha : v.length = bytes.length → hashes.sha256 bytes ≠ hashes.sha256 v := by
    intro hlen hsha
    exact hdiffer hlen (by rw [check16, check16, hsha])
  by_cases hlen : v.length = bytes.length
  · by_cases h : v.length > limits.truncateLimit <;>
      simp [checkSameValue, Stored.ofValue, h, hsha hlen, hne]
  · simp [checkSameValue, Stored.ofValue, hlen]

theorem ofValue_inj {limits : DictLimits} {v w : Bytes}
    (hsep : Separated hashes V) (hv : v ∈ V) (hw : w ∈ V)
    (h : IsEntry hashes limits v id stored) (h' : IsEntry hashes limits w id stored) : v = w := by
  by_contra hne
  have hself := checkSameValue_self hashes limits id w stored.req
  have hother := checkSameValue_other limits hsep hv hw h.id_eq h'.id_eq hne stored.req
  rw [← h.stored_eq] at hother
  rw [← h'.stored_eq, hother] at hself
  exact absurd hself (by simp)

/-! ## The three cases of an insertion -/

/-- The stored form of `bytes` fits under the cap on the total stored bytes. -/
def HasRoom (dicts : SegmentDicts) (bytes : Bytes) : Prop :=
  saturatingAdd dicts.storedBytes (min bytes.length dicts.limits.truncateLimit) ≤
    dicts.limits.maxTotalBytes

theorem insert_eq (hid : StrId.of hashes bytes = some id) :
    dicts.insert hashes bytes req = dicts.tryInsert hashes id bytes req := by
  simp only [SegmentDicts.insert, hid, idOrCollision]

/-- An insertion of a value that is stored: refused when its requirements
conflict, and merged otherwise. -/
theorem insert_same (req : Requirements) (hid : StrId.of hashes bytes = some id)
    (h : dicts.entries[id]? = some (Stored.ofValue hashes dicts.limits bytes r)) :
    (r.merge req).conflicts (dicts.limits.oversized bytes) = true ∧
        dicts.insert hashes bytes req = (.error (.placementConflict id), dicts) ∨
      ∃ after, dicts.insert hashes bytes req = (.ok id, after) ∧
        Updated hashes dicts after id bytes req := by
  have heq : dicts.insert hashes bytes req =
      if (r.merge req).conflicts (dicts.limits.oversized bytes) then
        (.error (.placementConflict id), dicts)
      else
        (.ok id, { dicts with
          entries :=
            dicts.entries.modify id fun stored => { stored with req := r.merge req } }) := by
    rw [insert_eq hid, tryInsert, h]
    simp only [checkSameValue_self]
    rfl
  rw [heq]
  by_cases hc : (r.merge req).conflicts (dicts.limits.oversized bytes) = true
  · left
    rw [if_pos hc]
    exact ⟨hc, rfl⟩
  · right
    rw [if_neg hc]
    refine ⟨_, rfl, ⟨rfl, ?_, fun j hj => ?_, ?_⟩⟩
    · rw [reqOf_of_getElem? h, Std.TreeMap.getElem?_modify, if_pos Std.ReflCmp.compare_self, h]
      rfl
    · rw [Std.TreeMap.getElem?_modify,
        if_neg (fun he => hj (Std.LawfulEqCmp.eq_of_compare he).symm)]
    · rw [reqOf_of_getElem? h]
      exact Bool.eq_false_iff.mpr hc

theorem insert_absent (req : Requirements) (hid : StrId.of hashes bytes = some id)
    (h : dicts.entries[id]? = none) :
    req.conflicts (dicts.limits.oversized bytes) = true ∧
        dicts.insert hashes bytes req = (.error (.placementConflict id), dicts) ∨
      req.hotHard = false ∧
        dicts.insert hashes bytes req =
          (.error (.full dicts.storedBytes dicts.limits.maxTotalBytes), dicts) ∨
      ∃ after, dicts.insert hashes bytes req = (.ok id, after) ∧
        Updated hashes dicts after id bytes req ∧ (req.hotHard = false → dicts.HasRoom bytes) := by
  rw [insert_eq hid, tryInsert, h]
  by_cases hc : req.conflicts (dicts.limits.oversized bytes) = true
  · left
    simp only [hc, if_true, and_self]
  · right
    simp only [if_neg hc]
    split
    · rename_i hfull
      left
      simp only [Bool.and_eq_true, Bool.not_eq_true'] at hfull
      exact ⟨hfull.1, rfl⟩
    · rename_i hroom
      right
      have hcalm : (Requirements.merge {} req).conflicts
          (dicts.limits.oversized bytes) = false := by
        exact Bool.eq_false_iff.mpr hc
      refine ⟨_, rfl, ⟨rfl, ?_, fun j hj => ?_, ?_⟩, fun hsoft => ?_⟩
      · rw [reqOf_of_none h, Requirements.empty_merge, Std.TreeMap.getElem?_insert,
          if_pos Std.ReflCmp.compare_self]
      · rw [Std.TreeMap.getElem?_insert,
          if_neg (fun he => hj (Std.LawfulEqCmp.eq_of_compare he).symm)]
      · rw [reqOf_of_none h]
        exact hcalm
      · simp only [hsoft, Bool.not_false, Bool.true_and, decide_eq_true_eq, Nat.not_lt] at hroom
        exact hroom

theorem insert_other {v : Bytes} (hsep : Separated hashes V) (hv : v ∈ V)
    (hbytes : bytes ∈ V) (hvid : StrId.of hashes v = some id)
    (hid : StrId.of hashes bytes = some id) (hne : v ≠ bytes)
    (h : dicts.entries[id]? = some (Stored.ofValue hashes dicts.limits v r)) :
    dicts.insert hashes bytes req = (.error (.collision id.raw), dicts) := by
  rw [insert_eq hid, tryInsert, h]
  simp only [checkSameValue_other _ hsep hv hbytes hvid hid hne]

/-! ## The calls of one request on the window -/

theorem optional_insert (req : Requirements) (hid : StrId.of hashes bytes = some id)
    (h : dicts.entries[id]? = some (Stored.ofValue hashes dicts.limits bytes r))
    (hcalm : r.conflicts (dicts.limits.oversized bytes) = false) (flag : Bool) :
    flag = true ∧ (r.merge req).conflicts (dicts.limits.oversized bytes) = true ∧
        (if flag then dicts.insert hashes bytes req else (.ok id, dicts)) =
          (.error (.placementConflict id), dicts) ∨
      ∃ after, (if flag then dicts.insert hashes bytes req else (.ok id, dicts)) =
          (.ok id, after) ∧
        Updated hashes dicts after id bytes (if flag then req else {}) := by
  cases flag with
  | false => exact Or.inr ⟨dicts, rfl, Updated.refl h hcalm⟩
  | true =>
    rcases insert_same req hid h with ⟨hc, heq⟩ | ⟨after, heq, hup⟩
    · exact Or.inl ⟨rfl, hc, heq⟩
    · exact Or.inr ⟨after, heq, hup⟩

theorem internHotBestEffort_of_insert {after : SegmentDicts}
    (h : dicts.insert hashes bytes { hotSoft := true } = (.ok id, after))
    (hentry : after.entries[id]? = some stored) :
    dicts.internHotBestEffort hashes bytes = (.ok (id, stored.isHot), after) := by
  simp only [internHotBestEffort, h, hentry, Option.any_some]

end SegmentDicts

namespace Requirements

variable {r req : Requirements} {oversized : Bool}

theorem ite_blob : (if req.blob then ({ blob := true } : Requirements) else {}) =
    { blob := req.blob } := by
  cases req.blob <;> rfl

theorem ite_hotHard : (if req.hotHard then ({ hotHard := true } : Requirements) else {}) =
    { hotHard := req.hotHard } := by
  cases req.hotHard <;> rfl

theorem ite_hotSoft : (if req.hotSoft then ({ hotSoft := true } : Requirements) else {}) =
    { hotSoft := req.hotSoft } := by
  cases req.hotSoft <;> rfl

theorem conflicts_merge_soft (b : Bool) :
    (r.merge { hotSoft := b }).conflicts oversized = r.conflicts oversized := by
  simp only [conflicts, merge, Bool.or_false]

end Requirements

namespace SegmentDicts

variable {hashes : Hashes} {V : Set Bytes} {dicts : SegmentDicts}
variable {id : StrId} {bytes : Bytes} {req : Requirements}

/-- The flag calls on a window that holds the value: refused without a change, or
accepted with all requirements merged. -/
theorem flagCalls_spec (hid : StrId.of hashes bytes = some id)
    (h : dicts.entries[id]? = some (Stored.ofValue hashes dicts.limits bytes r))
    (hcalm : r.conflicts (dicts.limits.oversized bytes) = false)
    (hreq : req.conflicts (dicts.limits.oversized bytes) = false) :
    (r.merge req).conflicts (dicts.limits.oversized bytes) = true ∧
        (∃ after, Writer.Interner.flagCalls hashes dicts id bytes req =
          (.error (.placementConflict id), after) ∧ Same dicts after) ∨
      ∃ after hot, Writer.Interner.flagCalls hashes dicts id bytes req =
          (.ok (id, hot), after) ∧ Updated hashes dicts after id bytes req ∧
        hot = if req.hotSoft then
            (Stored.ofValue hashes dicts.limits bytes (r.merge req)).isHot
          else req.hotHard := by
  have hmerge := Requirements.merge_flags r req
  rcases optional_insert { blob := true } hid h hcalm req.blob with
    ⟨hflag, hc, heq⟩ | ⟨one, heq, hone⟩
  · -- The value is strict-hot, and the forced blob is refused first.
    left
    refine ⟨?_, dicts, ?_, Same.refl dicts⟩
    · by_contra hne
      have hle : ((r.merge { blob := true }).merge req).conflicts
          (dicts.limits.oversized bytes) = false := by
        have hsame : (r.merge { blob := true }).merge req = r.merge req := by
          simp only [Requirements.merge, hflag, Bool.or_false, Bool.or_true]
        rw [hsame]
        exact Bool.eq_false_iff.mpr hne
      rw [Requirements.conflicts_mono hle] at hc
      exact absurd hc (by decide)
    · simp only [Writer.Interner.flagCalls, internBlob, heq]
  · rw [Requirements.ite_blob] at hone
    have hcalm1 := hone.calm
    have hentry1 := hone.entry
    rw [reqOf_of_getElem? h] at hcalm1 hentry1
    rw [← hone.limits] at hcalm1 hentry1
    rcases optional_insert { hotHard := true } hid hentry1 hcalm1 req.hotHard with
      ⟨hflag, hc, heq2⟩ | ⟨two, heq2, htwo⟩
    · -- The strict hot mark is refused; the request then asks for no blob.
      left
      have hblob : req.blob = false := by
        simp only [Requirements.conflicts, hflag, Bool.true_and, Bool.or_eq_false_iff] at hreq
        exact hreq.1
      refine ⟨?_, one, ?_, ?_⟩
      · rw [← hmerge, Requirements.conflicts_merge_soft, hflag, ← hone.limits]
        exact hc
      · simp only [Writer.Interner.flagCalls, internBlob, internHot, heq, heq2]
      · rw [hblob] at hone
        exact hone.same h
    · right
      rw [Requirements.ite_hotHard] at htwo
      have hcalm2 := htwo.calm
      have hentry2 := htwo.entry
      rw [← htwo.limits] at hcalm2 hentry2
      have hall : ∀ last, Updated hashes two last id bytes { hotSoft := req.hotSoft } →
          Updated hashes dicts last id bytes req := by
        intro last hlast
        have htrans := (hone.trans htwo).trans hlast
        rwa [Requirements.merge_flags_self] at htrans
      rcases optional_insert { hotSoft := true } hid hentry2 hcalm2 req.hotSoft with
        ⟨_, hc, _⟩ | ⟨three, heq3, hthree⟩
      · rw [Requirements.conflicts_merge_soft, hcalm2] at hc
        exact absurd hc (by decide)
      · rw [Requirements.ite_hotSoft] at hthree
        have hdone := hall three hthree
        cases hsoft : req.hotSoft with
        | false =>
          rw [hsoft] at heq3
          obtain ⟨-, rfl⟩ := Prod.mk.inj heq3
          refine ⟨two, req.hotHard, ?_, hdone, rfl⟩
          simp only [Writer.Interner.flagCalls, internBlob, internHot, heq, heq2, hsoft,
            Bool.false_eq_true, if_false]
        | true =>
          rw [hsoft] at heq3
          have hlast := hdone.entry
          rw [reqOf_of_getElem? h] at hlast
          refine ⟨three, _, ?_, hdone, rfl⟩
          simp only [Writer.Interner.flagCalls, internBlob, internHot, heq, heq2, hsoft,
            internHotBestEffort_of_insert heq3 hlast]
          rfl

/-! ## Every outcome of a request -/

/-- Why a request for `bytes` is refused. -/
inductive Refused (hashes : Hashes) (V : Set Bytes) (dicts : SegmentDicts) (id : StrId)
    (bytes : Bytes) (req : Requirements) : DictError → Prop
  | collision (v : Bytes) (hv : v ∈ V) (hne : v ≠ bytes) (hid : StrId.of hashes v = some id) :
      Refused hashes V dicts id bytes req (.collision id.raw)
  | conflict (h : ((dicts.reqOf id).merge req).conflicts (dicts.limits.oversized bytes) = true) :
      Refused hashes V dicts id bytes req (.placementConflict id)
  | full (storedBytes max : Nat) (h : dicts.entries[id]? = none) :
      Refused hashes V dicts id bytes req (.full storedBytes max)

theorem insert_spec (req : Requirements) (hsound : Sound hashes V dicts) (hsep : Separated hashes V)
    (hV : bytes ∈ V) (hid : StrId.of hashes bytes = some id) :
    (∃ problem, dicts.insert hashes bytes req = (.error problem, dicts) ∧
        Refused hashes V dicts id bytes req problem) ∨
      ∃ after, dicts.insert hashes bytes req = (.ok id, after) ∧
        Updated hashes dicts after id bytes req ∧
        (dicts.entries[id]? = none → req.hotHard = false → dicts.HasRoom bytes) ∧
        ∀ stored, dicts.entries[id]? = some stored →
          IsEntry hashes dicts.limits bytes id stored := by
  cases h : dicts.entries[id]? with
  | none =>
    rcases insert_absent req hid h with ⟨hc, heq⟩ | ⟨_, heq⟩ | ⟨after, heq, hup, hroom⟩
    · refine Or.inl ⟨_, heq, .conflict ?_⟩
      rwa [reqOf_of_none h]
    · exact Or.inl ⟨_, heq, .full _ _ h⟩
    · exact Or.inr ⟨after, heq, hup, fun _ => hroom, fun _ hsome => absurd hsome (by simp)⟩
  | some stored =>
    obtain ⟨v, hv, hentry⟩ := hsound id stored h
    by_cases hne : v = bytes
    · rw [hne] at hentry
      rw [hentry.stored_eq] at h
      rcases insert_same req hid h with ⟨hc, heq⟩ | ⟨after, heq, hup⟩
      · refine Or.inl ⟨_, heq, .conflict ?_⟩
        rwa [reqOf_of_getElem? h]
      · refine Or.inr ⟨after, heq, hup, fun hnone => absurd hnone (by simp), fun other hother => ?_⟩
        rw [← Option.some.inj hother]
        exact hentry
    · rw [hentry.stored_eq] at h
      exact Or.inl ⟨_, insert_other hsep hv hV hentry.id_eq hid hne h,
        .collision v hv hne hentry.id_eq⟩

theorem windowCalls_spec (hsound : Sound hashes V dicts) (hsep : Separated hashes V)
    (hV : bytes ∈ V) (hid : StrId.of hashes bytes = some id)
    (hreq : req.conflicts (dicts.limits.oversized bytes) = false) :
    (∃ problem after, Writer.Interner.windowCalls hashes dicts bytes req =
        (.error problem, after) ∧ Same dicts after ∧
        Refused hashes V dicts id bytes req problem) ∨
      ∃ after hot, Writer.Interner.windowCalls hashes dicts bytes req = (.ok (id, hot), after) ∧
        Updated hashes dicts after id bytes req ∧
        (dicts.entries[id]? = none → dicts.HasRoom bytes) ∧
        (∀ stored, dicts.entries[id]? = some stored → IsEntry hashes dicts.limits bytes id stored) ∧
        hot = if req.hotSoft then
            (Stored.ofValue hashes dicts.limits bytes ((dicts.reqOf id).merge req)).isHot
          else req.hotHard := by
  rcases insert_spec {} hsound hsep hV hid with
    ⟨problem, heq, hwhy⟩ | ⟨one, heq, hone, hroom, hvalue⟩
  · left
    refine ⟨problem, dicts, ?_, Same.refl dicts, ?_⟩
    · simp only [Writer.Interner.windowCalls, SegmentDicts.intern, heq]
    · cases hwhy with
      | collision v hv hne hvid => exact .collision v hv hne hvid
      | full stored max h => exact .full stored max h
      | conflict h =>
        refine .conflict ?_
        by_contra hne
        rw [Requirements.merge_empty, Requirements.conflicts_mono (Bool.eq_false_iff.mpr hne)] at h
        exact absurd h (by decide)
  · have hcalls : Writer.Interner.windowCalls hashes dicts bytes req =
        Writer.Interner.flagCalls hashes one id bytes req := by
      simp only [Writer.Interner.windowCalls, SegmentDicts.intern, heq]
    have hentry := hone.entry
    have hcalm := hone.calm
    rw [Requirements.merge_empty] at hentry hcalm
    rw [← hone.limits] at hentry hcalm hreq
    rcases flagCalls_spec hid hentry hcalm hreq with
      ⟨hc, after, hflags, hsame⟩ | ⟨after, hot, hflags, hup, hhot⟩
    · left
      refine ⟨_, after, hcalls.trans hflags, ?_, .conflict (by rwa [← hone.limits])⟩
      -- A window without the value would have accepted the request.
      cases h : dicts.entries[id]? with
      | none =>
        rw [reqOf_of_none h, Requirements.empty_merge] at hc
        rw [hc] at hreq
        exact absurd hreq (by decide)
      | some stored =>
        have hstored : dicts.entries[id]? =
            some (Stored.ofValue hashes dicts.limits bytes stored.req) := by
          obtain ⟨v, hv, hv_entry⟩ := hsound id stored h
          by_cases hvb : v = bytes
          · rw [h, ← hvb, ← hv_entry.stored_eq]
          · have hstored := hv_entry.stored_eq ▸ h
            rw [insert_other hsep hv hV hv_entry.id_eq hid hvb hstored] at heq
            exact absurd heq (by simp)
        have hsame1 := hone.same hstored
        exact ⟨hsame.limits.trans hsame1.limits,
          fun j => (hsame.entries j).trans (hsame1.entries j)⟩
    · right
      refine ⟨after, hot, hcalls.trans hflags, ?_, fun hnone => hroom hnone rfl, hvalue, ?_⟩
      · have htrans := hone.trans hup
        rwa [Requirements.empty_merge] at htrans
      · rw [hhot, hone.limits]

end SegmentDicts

end Kronika.Format
