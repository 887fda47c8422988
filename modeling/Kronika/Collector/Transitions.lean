/-
What one operation of the collector can do to its storage.

`SameParts`, `Closes` and `Appends` are the three changes there are; a close makes one
of the first two, and the append of an encoded window runs through them in the orders
that `Admission` lists.
-/
import Kronika.Collector.Segments

namespace Kronika.Collector

open Format Writer

variable {crc32c : Checksum} {journalConfig : JournalConfig} {grown : Bool}
  {parts : List (ValidPart crc32c)} {before mid after : Storage} {id : SegmentId} {body : Bytes}

/-- No part is added or moved. -/
structure SameParts (crc32c : Checksum) (journalConfig : JournalConfig) (grown : Bool)
    (parts : List (ValidPart crc32c)) (before after : Storage) : Prop where
  kept : Kept crc32c journalConfig after.journal grown parts
  journal : after.journal = before.journal ∨ after.journal.poisoned = true
  closed : after.closed = before.closed
  segment : after.segment = before.segment ∨
    after.segment = SegmentState.withSealSeed before.segment.sealSeed

/-- The journal's parts become those of the closed segment `id`. -/
structure Closes (crc32c : Checksum) (journalConfig : JournalConfig) (grown : Bool)
    (before after : Storage) (id : SegmentId) : Prop where
  kept : Kept crc32c journalConfig after.journal grown ([] : List (ValidPart crc32c))
  firstId : before.segment.firstId = some id
  identity : before.journal.segmentId = some id
  healthy : before.journal.poisoned = false
  segment : after.segment = SegmentState.withSealSeed before.segment.sealSeed
  closed : after.closed = before.closed ++ [(id, before.journal.bodies)]
  empty : after.journal.parts = []

/-- `body` becomes the last part of the journal. -/
structure Appends (hashes : Hashes) (crc32c : Checksum) (journalConfig : JournalConfig)
    (parts : List (ValidPart crc32c)) (before after : Storage) (id : SegmentId) (body : Bytes) :
    Prop where
  kept : ∃ valid : ValidPart crc32c, valid.bytes = body ∧
    Kept crc32c journalConfig after.journal true (parts ++ [valid])
  check : before.journal.checkAppend crc32c id body = .ok ()
  journal : after.journal = before.journal.appended crc32c id body
  closed : after.closed = before.closed
  interner : after.segment.interner = before.segment.interner.afterFlush hashes
  answered : after.segment.answered = before.segment.answered

theorem SameParts.refl (h : Kept crc32c journalConfig before.journal grown parts) :
    SameParts crc32c journalConfig grown parts before before :=
  ⟨h, Or.inl rfl, rfl, Or.inl rfl⟩

theorem SameParts.after_same (hmid : SameParts crc32c journalConfig grown parts before mid)
    (hsegment : mid.segment = before.segment)
    (h : SameParts crc32c journalConfig grown parts mid after) :
    SameParts crc32c journalConfig grown parts before after where
  kept := h.kept
  journal := by
    rcases h.journal with heq | hpoisoned
    · rw [heq]
      exact hmid.journal
    · exact Or.inr hpoisoned
  closed := h.closed.trans hmid.closed
  segment := by
    rw [← hsegment]
    exact h.segment

/-! ## Closing -/

theorem writeSegment_ok {journal : Journal} {published : Bool}
    (h : writeSegment journal id published = .ok ()) :
    journal.parts ≠ [] ∧ journal.poisoned = false ∧
      ∀ owner, journal.segmentId = some owner → owner = id := by
  unfold writeSegment at h
  by_cases hempty : journal.parts.isEmpty = true
  · rw [if_pos hempty] at h
    cases h
  · rw [if_neg hempty] at h
    have hne : journal.parts ≠ [] := fun hnil => hempty (List.isEmpty_iff.mpr hnil)
    have hhealthy : ∀ {p : Bool}, (if p then Except.error CollectorError.write
        else if published then .ok () else .error .write) = (.ok () : Except _ Unit) →
        p = false := by
      intro p hp
      cases p with
      | false => rfl
      | true => cases hp
    cases howner : journal.segmentId with
    | none =>
      rw [howner] at h
      exact ⟨hne, hhealthy h, fun owner hcontra => by cases hcontra⟩
    | some owner =>
      rw [howner] at h
      dsimp only at h
      by_cases hother : owner ≠ id
      · rw [if_pos hother] at h
        cases h
      · rw [if_neg hother] at h
        refine ⟨hne, hhealthy h, fun other heq => ?_⟩
        rw [← Option.some.inj heq]
        exact not_not.mp hother

theorem closeOpenSegment_cases (h : Kept crc32c journalConfig before.journal grown parts)
    (io : CloseIo) :
    (∃ problem, (closeOpenSegment crc32c io before).1 = .error problem ∧
      SameParts crc32c journalConfig grown parts before (closeOpenSegment crc32c io before).2) ∨
    ∃ id, (closeOpenSegment crc32c io before).1 = .ok id ∧
      Closes crc32c journalConfig grown before (closeOpenSegment crc32c io before).2 id := by
  unfold closeOpenSegment publishJournal
  cases hfirst : before.segment.firstId with
  | none => exact Or.inl ⟨_, rfl, SameParts.refl h⟩
  | some id =>
    dsimp only
    cases hwrite : writeSegment before.journal id io.published with
    | error problem => exact Or.inl ⟨_, rfl, h, Or.inl rfl, rfl, Or.inr rfl⟩
    | ok _ =>
      obtain ⟨hne, hhealthy, howner⟩ := writeSegment_ok hwrite
      have hclean := h.clean hhealthy
      rcases h.resetIo io.reset with ⟨problem, herror, hkept, hjournal⟩ |
        ⟨hok, hkept, hempty, -⟩
      · left
        rcases hreset : before.journal.resetIo crc32c io.reset with ⟨result, journal⟩
        rw [hreset] at herror hkept hjournal
        subst herror
        exact ⟨_, rfl, hkept, hjournal, rfl, Or.inr rfl⟩
      · right
        rcases hreset : before.journal.resetIo crc32c io.reset with ⟨result, journal⟩
        rw [hreset] at hok hkept hempty
        subst hok
        have hidentity : before.journal.segmentId = some id := by
          cases hid : before.journal.segmentId with
          | none =>
            have hnil := hclean.identity.mp hid
            subst hnil
            exact absurd hclean.refs hne
          | some owner => rw [howner owner hid]
        exact ⟨id, rfl, hkept, hfirst, hidentity, hhealthy, rfl, rfl, hempty⟩

theorem closeFor_cases (before : Storage)
    (h : Kept crc32c journalConfig before.journal grown parts) (io : CloseIo)
    (reason : CloseReason) :
    (∃ problem after, closeFor crc32c io before reason = (.error (.close problem), after) ∧
      SameParts crc32c journalConfig grown parts before after) ∨
    ∃ id after, closeFor crc32c io before reason = (.ok [(id, reason)], after) ∧
      Closes crc32c journalConfig grown before after id := by
  unfold closeFor
  rcases closeOpenSegment_cases h io with ⟨problem, herror, hsame⟩ | ⟨id, hok, hcloses⟩
  · left
    rcases hclose : closeOpenSegment crc32c io before with ⟨result, after⟩
    rw [hclose] at herror hsame
    subst herror
    exact ⟨problem, after, rfl, hsame⟩
  · right
    rcases hclose : closeOpenSegment crc32c io before with ⟨result, after⟩
    rw [hclose] at hok hcloses
    subst hok
    exact ⟨id, after, rfl, hcloses⟩

/-! ## Appending -/

/-- Everything that the append of an encoded window can do. -/
inductive Admission (hashes : Hashes) (crc32c : Checksum) (journalConfig : JournalConfig)
    (grown : Bool) (parts : List (ValidPart crc32c)) (before : Storage) (ts : Int64)
    (body : Bytes) :
    Except AppendWindowError (List (SegmentId × CloseReason)) → Storage → Prop
  | refused {problem : CollectorError} {after : Storage}
      (same : SameParts crc32c journalConfig grown parts before after)
      (segment : after.segment = before.segment) :
      Admission hashes crc32c journalConfig grown parts before ts body
        (.error (.other problem)) after
  | full {id : SegmentId} {after : Storage}
      (closes : Closes crc32c journalConfig grown before after id) :
      Admission hashes crc32c journalConfig grown parts before ts body
        (.ok [(id, .journalFull)]) after
  | fullNotClosed {problem : CollectorError} {after : Storage}
      (same : SameParts crc32c journalConfig grown parts before after) :
      Admission hashes crc32c journalConfig grown parts before ts body
        (.error (.close problem)) after
  | appended {id : SegmentId} {after : Storage} (hid : segmentIdFor before.segment ts = some id)
      (appends : Appends hashes crc32c journalConfig parts before after id body) :
      Admission hashes crc32c journalConfig grown parts before ts body (.ok []) after
  | appendedClosed {id closedId : SegmentId} {reason : CloseReason} {mid after : Storage}
      (hid : segmentIdFor before.segment ts = some id)
      (appends : Appends hashes crc32c journalConfig parts before mid id body)
      (closes : Closes crc32c journalConfig true mid after closedId)
      (hreason : reason ≠ .journalFull) :
      Admission hashes crc32c journalConfig grown parts before ts body
        (.ok [(closedId, reason)]) after
  | appendedNotClosed {id : SegmentId} {problem : CollectorError} {valid : ValidPart crc32c}
      {mid after : Storage} (hid : segmentIdFor before.segment ts = some id)
      (appends : Appends hashes crc32c journalConfig parts before mid id body)
      (hvalid : valid.bytes = body)
      (same : SameParts crc32c journalConfig true (parts ++ [valid]) mid after) :
      Admission hashes crc32c journalConfig grown parts before ts body
        (.error (.close problem)) after
  | appendedNoClock {id : SegmentId} {problem : CollectorError} {after : Storage}
      (hid : segmentIdFor before.segment ts = some id)
      (appends : Appends hashes crc32c journalConfig parts before after id body)
      (fresh : before.segment.firstId = none) :
      Admission hashes crc32c journalConfig grown parts before ts body
        (.error (.other problem)) after

theorem closeReason_ne_journalFull {forced expired : Bool} {bytes max : Nat}
    {reason : CloseReason} (h : closeReason forced expired bytes max = some reason) :
    reason ≠ .journalFull := by
  rintro rfl
  unfold closeReason at h
  split at h
  · cases h
  · split at h
    · cases h
    · split at h
      · cases h
      · cases h

theorem onWindowAppended_eq_some {segment later : SegmentState} {clock : Clock} {maxAge : Nat}
    (h : segment.onWindowAppended id clock maxAge = some later) :
    later.interner = segment.interner ∧ later.answered = segment.answered := by
  unfold SegmentState.onWindowAppended at h
  split at h
  · rw [← Option.some.inj h]
    exact ⟨rfl, rfl⟩
  · split at h
    · cases h
    · rw [← Option.some.inj h]
      exact ⟨rfl, rfl⟩

theorem onWindowAppended_eq_none {segment : SegmentState} {clock : Clock} {maxAge : Nat}
    (h : segment.onWindowAppended id clock maxAge = none) : segment.firstId = none := by
  unfold SegmentState.onWindowAppended at h
  split at h
  · cases h
  · assumption

theorem afterAppend_admission {hashes : Hashes} {config : Config} {io : AppendIo} {forced : Bool}
    {ts : Int64} (hid : segmentIdFor before.segment ts = some id)
    (happends : Appends hashes crc32c journalConfig parts before mid id body)
    (hsegment : mid.segment.firstId = before.segment.firstId) :
    Admission hashes crc32c journalConfig grown parts before ts body
      (afterAppend crc32c config io forced mid).1 (afterAppend crc32c config io forced mid).2 := by
  have hidentity : mid.journal.segmentId = some id := by
    rw [happends.journal]
    rfl
  unfold afterAppend
  rw [hidentity]
  dsimp only
  cases happened : mid.segment.onWindowAppended id io.clock
      (config.segmentMaxAgeSecs * 1000000000) with
  | none =>
    exact .appendedNoClock hid happends (hsegment ▸ onWindowAppended_eq_none happened)
  | some segment =>
    obtain ⟨hinterner, hanswered⟩ := onWindowAppended_eq_some happened
    have hregistered : Appends hashes crc32c journalConfig parts before
        { mid with segment := segment } id body :=
      ⟨happends.kept, happends.check, happends.journal, happends.closed,
        hinterner.trans happends.interner, hanswered.trans happends.answered⟩
    dsimp only
    cases hreason : closeReason forced (segment.ageExpired io.clock.now) mid.journal.len
        config.segmentMaxBytes with
    | none => exact .appended hid hregistered
    | some reason =>
      obtain ⟨valid, hvalid, hkept⟩ := hregistered.kept
      rcases closeFor_cases _ hkept io.close reason with
        ⟨problem, after, heq, hsame⟩ | ⟨closedId, after, heq, hcloses⟩
      · dsimp only
        rw [heq]
        exact .appendedNotClosed hid hregistered hvalid hsame
      · dsimp only
        rw [heq]
        exact .appendedClosed hid hregistered hcloses (closeReason_ne_journalFull hreason)

theorem flushWindow_appendCallback (hashes : Hashes) (io : WriteIo) (journal : Journal)
    (interner : Interner) :
    interner.flushWindow hashes (appendCallback crc32c io journal id body) =
      match journal.appendIo crc32c io id body with
      | (.error problem, journal) => (.error (problem, journal), interner)
      | (.ok _, journal) => (.ok (interner.window.len, journal), interner.afterFlush hashes) := by
  unfold Interner.flushWindow appendCallback
  rcases journal.appendIo crc32c io id body with ⟨_ | _, _⟩ <;> rfl

theorem appendWindowAndMaybeClose_admission
    (h : Kept crc32c journalConfig before.journal grown parts) (hashes : Hashes)
    (config : Config) (io : AppendIo) (ts : Int64) (forced : Bool) (body : Bytes) :
    Admission hashes crc32c journalConfig grown parts before ts body
      (appendWindowAndMaybeClose hashes crc32c config io before ts forced body).1
      (appendWindowAndMaybeClose hashes crc32c config io before ts forced body).2 := by
  unfold appendWindowAndMaybeClose
  cases hid : segmentIdFor before.segment ts with
  | none => exact .refused (SameParts.refl h) rfl
  | some id =>
    dsimp only
    rw [flushWindow_appendCallback]
    rcases h.appendIo io.append id body with
      ⟨problem, herror, hkept, hjournal⟩ | ⟨valid, hvalid, hcheck, heq, hkept⟩
    · rcases happend : before.journal.appendIo crc32c io.append id body with ⟨result, journal⟩
      rw [happend] at herror hkept hjournal
      subst herror
      dsimp only
      have hsame : SameParts crc32c journalConfig grown parts before
          { before with journal := journal } := ⟨hkept, hjournal, rfl, Or.inl rfl⟩
      by_cases hfull : (isJournalFull problem && !before.segment.isEmpty) = true
      · rw [if_pos hfull]
        rcases closeFor_cases { before with journal := journal } hkept io.close
          .journalFull with ⟨failure, after, heq, hclose⟩ | ⟨closedId, after, heq, hcloses⟩
        · rw [heq]
          exact .fullNotClosed (hsame.after_same rfl hclose)
        · rw [heq]
          have hunchanged : journal = before.journal := by
            rcases hjournal with heq | hpoisoned
            · exact heq
            · rw [hcloses.healthy] at hpoisoned
              cases hpoisoned
          subst hunchanged
          exact .full hcloses
      · rw [if_neg hfull]
        exact .refused hsame rfl
    · rw [heq]
      exact afterAppend_admission hid ⟨⟨valid, hvalid, hkept⟩, hcheck, rfl, rfl, rfl, rfl⟩ rfl

end Kronika.Collector
