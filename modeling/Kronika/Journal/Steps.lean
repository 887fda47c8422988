/-
The operations of a journal lead from clean journals to clean ones.

Whatever opens is clean, and an accepted append keeps a clean journal clean.  So
the results about clean journals hold for every handle a process has.
-/
import Kronika.Journal.Append

namespace Kronika.Writer

open Format Library

variable {crc32c : Checksum} {journal : Journal} {parts : List (ValidPart crc32c)}
variable {part : ValidPart crc32c} {segmentId : SegmentId} {config : JournalConfig}

/-! ## Appending -/

theorem frames_single (part : ValidPart crc32c) : frames [part] = part.frame :=
  List.append_nil _

theorem frames_concat (parts : List (ValidPart crc32c)) (part : ValidPart crc32c) :
    frames (parts ++ [part]) = frames parts ++ part.frame := by
  rw [frames_append, frames_single]

theorem applyAll_writeFrame (file : Bytes) (part : ValidPart crc32c) (ops : List FileOp) :
    FileOp.applyAll file (writeFrame crc32c file.length part.bytes ++ ops) =
      FileOp.applyAll (file ++ part.frame) ops := by
  have hend : file.length + frameHeaderLen =
      (file ++ FrameHeader.encode crc32c { partLen := part.bytes.length }).length := by
    rw [List.length_append, FrameHeader.length_encode]
  have hframe : part.frame = FrameHeader.encode crc32c { partLen := part.bytes.length } ++
      part.bytes := rfl
  rw [writeFrame, List.cons_append, List.cons_append, List.nil_append, applyAll_cons,
    applyAll_cons, FileOp.apply, FileOp.apply, writeAt_length, hend, writeAt_length, hframe,
    List.append_assoc]

theorem apply_writeHeader (new old : JournalHeader) (body : Bytes) :
    (writeHeader crc32c new).apply (old.encode crc32c ++ body) = new.encode crc32c ++ body := by
  have hlen : (new.encode crc32c).length = (old.encode crc32c).length := by
    rw [JournalHeader.length_encode, JournalHeader.length_encode]
  rw [writeHeader, FileOp.apply, writeAt_zero, splice_append _ (Nat.le_of_eq hlen),
    splice_of_length_le (Nat.le_refl _) (Nat.le_of_eq hlen.symm)]

theorem appended_file (h : journal.Clean crc32c parts) :
    (journal.appended crc32c segmentId part.bytes).file =
      image (some segmentId) (parts ++ [part]) := by
  have hlength : journal.len = journal.file.length := h.length_file.symm
  show FileOp.applyAll journal.file (journal.appendOps crc32c segmentId part.bytes) = _
  rw [Journal.appendOps, h.isEmpty_parts, newHeader_eq h, hlength]
  by_cases hparts : parts = []
  · subst hparts
    have hsegment := h.identity.mpr rfl
    have hempty : journal.file = JournalHeader.empty.encode crc32c ++ [] := by
      rw [h.file, hsegment, image_nil, List.append_nil]
    have hsame : (JournalHeader.empty.encode crc32c ++ ([] : Bytes)).length =
        ((headerOf (some segmentId) [part]).encode crc32c ++ ([] : Bytes)).length := by
      rw [List.append_nil, List.append_nil, JournalHeader.length_encode,
        JournalHeader.length_encode]
    rw [List.isEmpty_nil, if_pos rfl, hempty, List.nil_append, applyAll_cons, apply_writeHeader,
      hsame, applyAll_writeFrame]
    show (headerOf (some segmentId) [part]).encode crc32c ++ [] ++ part.frame = _
    rw [List.append_nil, image, frames_single]
  · have hisEmpty : parts.isEmpty = false := by
      rw [List.isEmpty_eq_false_iff]
      exact hparts
    rw [hisEmpty, if_neg Bool.false_ne_true, applyAll_writeFrame, h.file, image, applyAll_cons,
      List.append_assoc, apply_writeHeader, image, frames_concat]
    rfl

theorem Journal.Clean.appended (h : journal.Clean crc32c parts)
    (hcheck : journal.checkAppend crc32c segmentId part.bytes = .ok ()) :
    (journal.appended crc32c segmentId part.bytes).Clean crc32c (parts ++ [part]) := by
  obtain ⟨-, -, hpart, -, hcount, hroom⟩ := checkAppend_ok hcheck
  have hlen := h.len
  have hframe : part.frameLen = frameHeaderLen + part.bytes.length := rfl
  have hnext : journal.nextLen part.bytes = journal.len + (frameHeaderLen + part.bytes.length) :=
    rfl
  have hall : (frames (parts ++ [part])).length = (frames parts).length + part.frameLen := by
    rw [frames_append, List.length_append, length_frames_single]
  have hparts : journal.parts.length = parts.length := by
    rw [h.refs, List.length_map, length_locate]
  refine ⟨appended_file h, ?_, ?_, ?_, h.config, ⟨?_, ?_⟩, ?_, h.healthy⟩
  · show journal.nextLen part.bytes = _
    omega
  · show journal.parts ++ [journal.appendedRef part.bytes] = _
    rw [locate_append, List.map_append, ← h.refs, ← hlen]
    rfl
  · exact ⟨fun hnone => absurd hnone (Option.some_ne_none _), fun hnil => absurd hnil (by simp)⟩
  · intro other hother
    rcases List.mem_append.mp hother with hold | hnew
    · exact h.admits.len other hold
    · rw [List.mem_singleton.mp hnew]
      exact hpart
  · show 0 + (parts ++ [part]).length ≤ journal.config.maxParts
    rw [List.length_append, List.length_singleton]
    omega
  · show journal.nextLen part.bytes ≤ journal.config.maxJournalLen
    omega

theorem room_appended (hcheck : journal.checkAppend crc32c segmentId part.bytes = .ok ()) :
    (journal.appended crc32c segmentId part.bytes).len + resetMarkerLen ≤
      (journal.appended crc32c segmentId part.bytes).config.maxJournalLen :=
  (checkAppend_ok hcheck).2.2.2.2.2

/-! ## Opening -/

theorem FrameHeader.encode_of_decode {bytes : Bytes} {header : FrameHeader}
    (hlen : bytes.length = frameHeaderLen)
    (h : FrameHeader.decode crc32c bytes = .ok header) : header.encode crc32c = bytes := by
  have hlen16 : bytes.length = 16 := hlen
  unfold FrameHeader.decode at h
  by_cases hmagic : slice bytes 0 4 = frameMagic
  · rw [if_neg (fun hne => hne hmagic)] at h
    by_cases hcrc : leNat (slice bytes 12 16) = (crc32c (slice bytes 0 12)).toNat
    · rw [if_neg (fun hne => hne hcrc)] at h
      cases h
      have hnum : (slice bytes 4 12).length = 8 := length_slice (by omega)
      have hsum : (slice bytes 12 16).length = 4 := length_slice (by omega)
      have hprelude : frameMagic ++ leBytes 8 (leNat (slice bytes 4 12)) = slice bytes 0 12 := by
        rw [← hmagic, ← hnum, leBytes_leNat, slice_append_slice (by omega) (by omega)]
      show frameMagic ++ leBytes 8 (leNat (slice bytes 4 12)) ++
        leBytes 4 (crc32c (frameMagic ++ leBytes 8 (leNat (slice bytes 4 12)))).toNat = bytes
      rw [hprelude, ← hcrc, ← hsum, leBytes_leNat, slice_append_slice (by omega) (by omega),
        slice_full (by omega)]
    · rw [if_pos hcrc] at h
      cases h
  · rw [if_pos hmagic] at h
    cases h

theorem streamingFrameAt_ok {limits : JournalLimits} {rest : Bytes} {len : Nat}
    {catalog : Catalog} (hshort : rest.length < 2 ^ 64)
    (h : streamingFrameAt crc32c limits rest = some (len, catalog)) :
    ∃ part : ValidPart crc32c, part.bytes.length = len ∧ part.catalog = catalog ∧
      len ≤ limits.maxPartLen ∧ rest = part.frame ++ rest.drop (frameHeaderLen + len) := by
  unfold streamingFrameAt at h
  by_cases hlen : rest.length < frameHeaderLen
  · rw [if_pos hlen] at h
    cases h
  · rw [if_neg hlen] at h
    have htake : (rest.take frameHeaderLen).length = frameHeaderLen := by
      rw [List.length_take, Nat.min_eq_left (by omega)]
    split at h
    · cases h
    · next header hdecode =>
      by_cases hlimit : header.partLen > limits.maxPartLen
      · rw [if_pos hlimit] at h
        cases h
      · rw [if_neg hlimit] at h
        by_cases hbody : rest.length - frameHeaderLen < header.partLen
        · rw [if_pos hbody] at h
          cases h
        · rw [if_neg hbody] at h
          split at h
          · cases h
          · next hvalid =>
            cases h
            have hslice : (slice rest frameHeaderLen (frameHeaderLen + header.partLen)).length =
                header.partLen := by
              rw [length_slice (by omega)]
              omega
            have hdrop : (rest.take (frameHeaderLen + header.partLen)).drop frameHeaderLen ++
                rest.drop (frameHeaderLen + header.partLen) = rest.drop frameHeaderLen := by
              rw [← List.drop_append_of_le_length (by
                rw [List.length_take]
                omega), List.take_append_drop]
            have hframe : Format.frame crc32c
                (slice rest frameHeaderLen (frameHeaderLen + header.partLen)) ++
                  rest.drop (frameHeaderLen + header.partLen) = rest := by
              rw [Format.frame, hslice, FrameHeader.encode_of_decode htake hdecode, slice,
                List.append_assoc, hdrop, List.take_append_drop]
            exact ⟨⟨_, catalog, hvalid, by rw [hslice]; omega⟩, hslice, rfl, by omega, hframe.symm⟩

theorem scanRest_full {limits : JournalLimits} {maxParts pos count : Nat} {rest : Bytes}
    {found : List (PartRef × Catalog)} (hshort : rest.length < 2 ^ 64) (hcount : count ≤ maxParts)
    (h : scanRest crc32c limits maxParts pos count rest = .ok (found, pos + rest.length)) :
    ∃ parts : List (ValidPart crc32c), rest = frames parts ∧ found = locate pos parts ∧
      Admits limits maxParts count parts := by
  obtain ⟨fuel, hfuel⟩ : ∃ fuel, rest.length ≤ fuel := ⟨_, Nat.le_refl _⟩
  induction fuel generalizing pos count rest found with
  | zero =>
    have hnil : rest = [] := List.length_eq_zero_iff.mp (by omega)
    subst hnil
    cases h
    exact ⟨[], rfl, rfl, fun part hpart => absurd hpart List.not_mem_nil, hcount⟩
  | succ fuel ih =>
    by_cases hnil : rest = []
    · subst hnil
      cases h
      exact ⟨[], rfl, rfl, fun part hpart => absurd hpart List.not_mem_nil, hcount⟩
    · have hpos : 0 < rest.length := List.length_pos_iff.mpr hnil
      cases hframe : streamingFrameAt crc32c limits rest with
      | none =>
        rw [scanRest_damaged pos count hframe] at h
        have hsnd := congrArg Prod.snd (Except.ok.inj h)
        omega
      | some frame =>
        obtain ⟨len, catalog⟩ := frame
        obtain ⟨part, rfl, rfl, hlimit, hrest⟩ := streamingFrameAt_ok hshort hframe
        have hlength := congrArg List.length hrest
        rw [List.length_append, part.length_frame] at hlength
        have hframeLen := part.lt_frameLen
        generalize hnext : rest.drop (frameHeaderLen + part.bytes.length) = next at hrest hlength
        subst hrest
        rw [scanRest_frame part next pos count hlimit] at h
        by_cases hfull : maxParts ≤ count
        · rw [if_pos hfull] at h
          cases h
        · rw [if_neg hfull] at h
          cases hscan : scanRest crc32c limits maxParts (pos + part.frameLen) (count + 1) next with
          | error problem =>
            rw [hscan] at h
            cases h
          | ok result =>
            obtain ⟨others, validLen⟩ := result
            rw [hscan] at h
            have hpair := Except.ok.inj h
            have hvalid : validLen = pos + part.frameLen + next.length := by
              have hsnd := congrArg Prod.snd hpair
              omega
            rw [hvalid] at hscan
            obtain ⟨parts, rfl, rfl, hadmits⟩ := ih (by omega) (by omega) hscan (by omega)
            refine ⟨part :: parts, rfl, (congrArg Prod.fst hpair).symm, ?_, ?_⟩
            · intro other hother
              rcases List.mem_cons.mp hother with rfl | htail
              · exact hlimit
              · exact hadmits.len other htail
            · have hnumber := hadmits.count
              rw [List.length_cons]
              omega

theorem openOps_cases (crc32c : Checksum) (config : JournalConfig) (file : Bytes) :
    openOps crc32c config file = [] ∨ openOps crc32c config file = finishCommittedReset crc32c ∨
      file = [] ∧ openOps crc32c config file = initializeJournal crc32c := by
  unfold openOps
  split
  · exact .inl rfl
  · split
    · exact .inl rfl
    · split
      · exact .inl rfl
      · exact .inr (.inl rfl)
      · split
        · rename_i hnil
          exact .inr (.inr ⟨List.isEmpty_iff.mp hnil, rfl⟩)
        · exact .inl rfl

theorem length_applyAll_openOps (config : JournalConfig) (file : Bytes) :
    FileOp.applyAll file (openOps crc32c config file) = file ∨
      (FileOp.applyAll file (openOps crc32c config file)).length = journalHeaderLen := by
  rcases openOps_cases crc32c config file with h | h | ⟨-, h⟩
  · rw [h]
    exact .inl rfl
  · rw [h]
    exact .inr (length_setLen _ _)
  · rw [h]
    exact .inr (length_setLen _ _)

theorem clean_of_openFile {file : Bytes} (hconfig : validateConfig config = .ok ())
    (hbound : file.length ≤ config.maxJournalLen) (h : openFile crc32c config file = .ok journal) :
    ∃ parts : List (ValidPart crc32c), journal.Clean crc32c parts := by
  obtain ⟨hlong, hfile, hlen, hjournal, hhealthy, header, hdecode, hbody, hopen⟩ := openFile_ok h
  have hmax := (validateConfig_ok hconfig).2
  have hmaxLen : maxJournalLen = 1073741824 := rfl
  have hslice : (slice file 0 journalHeaderLen).length = journalHeaderLen := length_slice hlong
  obtain ⟨hencode, -⟩ := JournalHeader.encode_of_decode hslice hdecode
  have hsplit : file = header.encode crc32c ++ file.drop journalHeaderLen := by
    rw [hencode, slice, List.drop_zero, List.take_append_drop]
  obtain ⟨hstate, hcase⟩ := openState_ok hopen
  have hdrop : (file.drop journalHeaderLen).length = file.length - journalHeaderLen :=
    List.length_drop
  obtain ⟨parts, hframes, hrefs, hidentity, hadmits⟩ : ∃ parts : List (ValidPart crc32c),
      file.drop journalHeaderLen = frames parts ∧
        journal.parts = (locate journalHeaderLen parts).map Prod.fst ∧
        (journal.segmentId = none ↔ parts = []) ∧
        Admits config.limits config.maxParts 0 parts := by
    rcases hcase with ⟨hnone, hparts, hshort⟩ | ⟨hsome, hne, hscan⟩
    · exact ⟨[], List.drop_of_length_le hshort, hparts, ⟨fun _ => rfl, fun _ => hnone⟩,
        admits_nil _ _⟩
    · rw [hsplit, scan_frames _ _ (JournalHeader.length_encode crc32c header)] at hscan
      cases hrest : scanRest crc32c config.limits config.maxParts journalHeaderLen 0
          (file.drop journalHeaderLen) with
      | error problem =>
        rw [hrest] at hscan
        cases hscan
      | ok result =>
        obtain ⟨found, validLen⟩ := result
        rw [hrest, ← hsplit] at hscan
        have hreport := Except.ok.inj hscan
        have hvalid : validLen = journalHeaderLen + (file.drop journalHeaderLen).length := by
          have hvalidLen := congrArg ScanReport.validLen hreport
          dsimp only at hvalidLen
          omega
        rw [hvalid] at hrest
        obtain ⟨parts, hframes, rfl, hadmits⟩ := scanRest_full (by omega) (Nat.zero_le _) hrest
        have hparts := (congrArg ScanReport.parts hreport).symm
        refine ⟨parts, hframes, hparts, ⟨fun hnone => absurd hnone hsome, fun hnil => ?_⟩, hadmits⟩
        rw [hnil] at hparts
        exact absurd hparts hne
  have hheader : header = headerOf journal.segmentId parts := by
    have hbodyLen : header.bodyLen = (frames parts).length := by
      rw [← hframes]
      omega
    exact congrArg₂ JournalHeader.mk hstate hbodyLen
  have htotal := congrArg List.length hframes
  refine ⟨parts, ⟨?_, by omega, hrefs, hidentity, ?_, ?_, ?_, hhealthy⟩⟩
  · rw [hfile, hsplit, hheader, hframes]
    rfl
  · rw [hjournal]
    exact hconfig
  · rw [hjournal]
    exact hadmits
  · rw [hjournal, hlen]
    exact hbound

theorem clean_of_open {file : Bytes} (h : Journal.open crc32c config (some file) = .ok journal) :
    ∃ parts : List (ValidPart crc32c), journal.Clean crc32c parts := by
  obtain ⟨hconfig, hbound, hfile⟩ := openExisting_ok (open_some h)
  refine clean_of_openFile hconfig ?_ hfile
  rcases length_applyAll_openOps config file with hsame | hlen
  · rw [hsame]
    exact hbound
  · rw [hlen]
    exact (validateConfig_ok hconfig).1

end Kronika.Writer
