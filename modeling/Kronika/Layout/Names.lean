/-
The names of the files of a day directory.

A segment is named by its id, which is written without leading zeros, and a temporary
file carries a process id and a sequence number after that.
-/
import Kronika.Layout.Calendar
import Kronika.Library.Folds
import Kronika.Library.Integers

namespace Kronika.Layout

open Format Gregorian Library

inductive TemporaryKind where
  | zms
  | idx
  | indexProbe
deriving DecidableEq

inductive ParsedLeaf where
  | zms (address : SegmentAddress)
  | idx (address : SegmentAddress)
  | temporary (address : SegmentAddress) (kind : TemporaryKind)

/-! ## Canonical numbers -/

/-- `value.strip_prefix('-').unwrap_or(value)`. -/
def withoutSign (value : List Char) : List Char :=
  if value.head? = some '-' then value.tail else value

def parseCanonicalI64 (value : List Char) : Option Int :=
  let digits := withoutSign value
  if digits = [] ∨ ¬ (digits.all Char.isDigit = true) ∨ value = ['-', '0'] ∨
      (value.head? = some '0' ∧ 1 < value.length) ∨
      (['-', '0'].isPrefixOf value = true ∧ 2 < value.length) then none
  else parseSigned 64 (String.ofList value)

def parseCanonicalU64 (value : List Char) : Option Nat :=
  if value = [] ∨ ¬ (value.all Char.isDigit = true) ∨
      (value.head? = some '0' ∧ 1 < value.length) then none
  else parseUnsigned 64 (String.ofList value)

variable {c : Char}

theorem isDigit_iff : c.isDigit = true ↔ '0' ≤ c ∧ c ≤ '9' := by
  rw [Char.isDigit, Bool.and_eq_true, decide_eq_true_eq, decide_eq_true_eq]
  rfl

theorem digitChar_of_isDigit (h : c.isDigit = true) :
    Nat.digitChar (c.toNat - '0'.toNat) = c ∧ c.toNat - '0'.toNat < 10 := by
  obtain ⟨hlow, hhigh⟩ := isDigit_iff.mp h
  have hlowNat : 48 ≤ c.toNat := hlow
  have hhighNat : c.toNat ≤ 57 := hhigh
  have hzero : '0'.toNat = 48 := rfl
  refine ⟨?_, by omega⟩
  have hchar : c = Char.ofNat c.toNat := (Char.ofNat_toNat c).symm
  generalize c.toNat = n at hlowNat hhighNat hchar ⊢
  rw [hchar]
  interval_cases n <;> rfl

theorem parseDigits_one (h : c.isDigit = true) (value : Nat) :
    parseDigits [c] value = some (value * 10 + (c.toNat - '0'.toNat)) := by
  rw [parseDigits, if_pos (isDigit_iff.mp h)]
  rfl

variable {n : Nat}

theorem toDigits_of_parseDigits {digits : List Char}
    (hdigits : digits.all Char.isDigit = true) (hne : digits ≠ [])
    (hlead : digits.head? = some '0' → digits.length ≤ 1) (h : parseDigits digits 0 = some n) :
    Nat.toDigits 10 n = digits := by
  induction digits using List.reverseRecOn generalizing n with
  | nil => exact absurd rfl hne
  | append_singleton digits c ih =>
    rw [List.all_append, Bool.and_eq_true] at hdigits
    have hc : c.isDigit = true := by simpa using hdigits.2
    obtain ⟨hchar, hlt⟩ := digitChar_of_isDigit hc
    rw [parseDigits_append] at h
    by_cases hnil : digits = []
    · rw [hnil] at h ⊢
      have hn : 0 * 10 + (c.toNat - '0'.toNat) = n :=
        Option.some.inj ((parseDigits_one hc 0).symm.trans h)
      rw [Nat.zero_add] at hn
      rw [← hn, Nat.toDigits_of_lt_base hlt, hchar]
      rfl
    · obtain ⟨m, hm, hlast⟩ := Option.bind_eq_some_iff.mp h
      rw [parseDigits_one hc] at hlast
      have hn := Option.some.inj hlast
      have hhead : digits.head? ≠ some '0' := by
        intro hzero
        have hlen := hlead (by rw [List.head?_append_of_ne_nil _ hnil]; exact hzero)
        have hpos := List.length_pos_of_ne_nil hnil
        rw [List.length_append, List.length_singleton] at hlen
        omega
      have hprevious := ih hdigits.1 hnil (fun hzero => absurd hzero hhead) hm
      have hmpos : 0 < m := by
        apply Nat.pos_of_ne_zero
        intro hzero
        rw [hzero] at hprevious
        exact hhead (by rw [← hprevious]; rfl)
      have hdiv : (m * 10 + (c.toNat - '0'.toNat)) / 10 = m := by omega
      have hmod : (m * 10 + (c.toNat - '0'.toNat)) % 10 = c.toNat - '0'.toNat := by omega
      rw [← hn, Nat.toDigits_of_base_le (by omega) (by omega), hdiv, hmod, hprevious, hchar]

theorem head_toDigits (h : 0 < n) : (Nat.toDigits 10 n).head? ≠ some '0' := by
  induction n using Nat.strongRecOn with
  | ind n ih =>
    by_cases hlt : n < 10
    · interval_cases n <;> decide
    · rw [Nat.toDigits_of_base_le (by omega) (by omega),
        List.head?_append_of_ne_nil _ Nat.toDigits_ne_nil]
      exact ih (n / 10) (by omega) (by omega)

theorem all_toDigits (n : Nat) : (Nat.toDigits 10 n).all Char.isDigit = true := by
  rw [List.all_eq_true]
  intro c hc
  exact Nat.isDigit_of_mem_toDigits (by omega) (by omega) hc

theorem length_toDigits_of_head (h : (Nat.toDigits 10 n).head? = some '0') :
    ¬ 1 < (Nat.toDigits 10 n).length := by
  have hzero : n = 0 := by
    by_contra hne
    exact head_toDigits (Nat.pos_of_ne_zero hne) h
  rw [hzero]
  decide

variable {text : List Char}

theorem parseDigits_of_parseUnsigned {bits n : Nat} (hdigits : text.all Char.isDigit = true)
    (h : parseUnsigned bits (String.ofList text) = some n) :
    parseDigits text 0 = some n ∧ n < 2 ^ bits := by
  rw [parseUnsigned, String.toList_ofList] at h
  split at h
  · exact absurd (List.all_eq_true.mp hdigits '+' List.mem_cons_self) (by decide)
  · split at h
    · cases h
    · obtain ⟨hparse, hlt⟩ := Option.filter_eq_some_iff.mp h
      exact ⟨hparse, of_decide_eq_true hlt⟩

theorem parseCanonicalU64_eq (h : parseCanonicalU64 text = some n) :
    text = Nat.toDigits 10 n ∧ n < 2 ^ 64 := by
  rw [parseCanonicalU64] at h
  split at h
  · cases h
  · rename_i hcond
    rw [not_or, not_or, not_not] at hcond
    obtain ⟨hne, hdigits, hlead⟩ := hcond
    obtain ⟨hparse, hlt⟩ := parseDigits_of_parseUnsigned hdigits h
    refine ⟨(toDigits_of_parseDigits hdigits hne ?_ hparse).symm, hlt⟩
    intro hhead
    by_contra hlong
    exact hlead ⟨hhead, Nat.lt_of_not_le hlong⟩

variable {value : Int}

theorem parseCanonicalI64_decimal (hlow : -2 ^ 63 ≤ value)
    (hhigh : value < 2 ^ 63) : parseCanonicalI64 (decimalText value) = some value := by
  have hparse : parseSigned 64 (String.ofList (decimalText value)) = some value :=
    parseSigned_decimalText hlow hhigh
  rw [parseCanonicalI64, hparse, if_neg]
  cases value with
  | ofNat n =>
    rw [decimalText]
    have hminus : '-' ∉ Nat.toDigits 10 n := not_mem_toDigits n (by decide)
    have hsign : withoutSign (Nat.toDigits 10 n) = Nat.toDigits 10 n :=
      if_neg fun hhead => hminus (List.mem_of_head? hhead)
    rw [hsign]
    rintro (hnil | hdigits | hzero | ⟨hhead, hlen⟩ | ⟨hzero, -⟩)
    · exact Nat.toDigits_ne_nil hnil
    · exact hdigits (all_toDigits n)
    · rw [hzero] at hminus
      exact hminus List.mem_cons_self
    · exact length_toDigits_of_head hhead hlen
    · obtain ⟨rest, hrest⟩ := List.isPrefixOf_iff_prefix.mp hzero
      rw [← hrest] at hminus
      exact hminus List.mem_cons_self
  | negSucc n =>
    have hhead := head_toDigits (Nat.succ_pos n)
    rintro (hnil | hdigits | hzero | ⟨hminus, -⟩ | ⟨hzero, -⟩)
    · exact Nat.toDigits_ne_nil hnil
    · exact hdigits (all_toDigits (n + 1))
    · rw [(List.cons.inj hzero).2] at hhead
      exact hhead rfl
    · cases hminus
    · obtain ⟨rest, hrest⟩ := List.isPrefixOf_iff_prefix.mp hzero
      rw [← (List.cons.inj hrest).2] at hhead
      exact hhead rfl

theorem parseCanonicalI64_negative {digits : List Char}
    (h : parseCanonicalI64 ('-' :: digits) = some value) :
    '-' :: digits = decimalText value ∧ -2 ^ 63 ≤ value ∧ value < 2 ^ 63 := by
  have hsign : withoutSign ('-' :: digits) = digits := rfl
  rw [parseCanonicalI64, hsign] at h
  split at h
  · cases h
  · rename_i hcond
    simp only [not_or, not_not] at hcond
    obtain ⟨hne, hdigits, hzero, -, hlead⟩ := hcond
    rw [parseSigned, String.toList_ofList] at h
    replace h : (if digits = [] then none else
        ((parseDigits digits 0).filter (· ≤ 2 ^ 63)).map fun value : Nat => -(value : Int)) =
      some value := h
    rw [if_neg hne] at h
    obtain ⟨n, hfilter, rfl⟩ := Option.map_eq_some_iff.mp h
    obtain ⟨hparse, hle⟩ := Option.filter_eq_some_iff.mp hfilter
    have hbound : n ≤ 2 ^ 63 := of_decide_eq_true hle
    have htext := toDigits_of_parseDigits hdigits hne (by
      intro hhead
      obtain ⟨rest, hrest⟩ := List.head?_eq_some_iff.mp hhead
      by_contra hlong
      exact hlead ⟨by rw [hrest]; rfl, by rw [List.length_cons]; omega⟩) hparse
    cases n with
    | zero =>
      rw [← htext] at hzero
      exact absurd rfl hzero
    | succ n =>
      rw [← htext]
      exact ⟨rfl, by omega, by omega⟩

theorem parseCanonicalI64_natural (hsign : text.head? ≠ some '-')
    (h : parseCanonicalI64 text = some value) :
    text = decimalText value ∧ -2 ^ 63 ≤ value ∧ value < 2 ^ 63 := by
  have hsame : withoutSign text = text := if_neg hsign
  rw [parseCanonicalI64, hsame] at h
  split at h
  · cases h
  · rename_i hcond
    simp only [not_or, not_not] at hcond
    obtain ⟨hne, hdigits, -, hlead, -⟩ := hcond
    rw [parseSigned, String.toList_ofList] at h
    split at h
    · exact absurd rfl hsign
    · exact absurd (List.all_eq_true.mp hdigits '+' List.mem_cons_self) (by decide)
    · rw [if_neg hne] at h
      obtain ⟨n, hfilter, rfl⟩ := Option.map_eq_some_iff.mp h
      obtain ⟨hparse, hlt⟩ := Option.filter_eq_some_iff.mp hfilter
      have hbound : n < 2 ^ 63 := of_decide_eq_true hlt
      have htext := toDigits_of_parseDigits hdigits hne (by
        intro hhead
        by_contra hlong
        exact hlead ⟨hhead, Nat.lt_of_not_le hlong⟩) hparse
      rw [← htext]
      refine ⟨rfl, ?_, ?_⟩
      · show -2 ^ 63 ≤ (n : Int)
        omega
      · show (n : Int) < 2 ^ 63
        omega

theorem parseCanonicalI64_eq (h : parseCanonicalI64 text = some value) :
    text = decimalText value ∧ -2 ^ 63 ≤ value ∧ value < 2 ^ 63 := by
  by_cases hsign : text.head? = some '-'
  · obtain ⟨digits, rfl⟩ := List.head?_eq_some_iff.mp hsign
    exact parseCanonicalI64_negative h
  · exact parseCanonicalI64_natural hsign h

/-! ## Leaf names -/

def zmsText : List Char := "zms".toList
def idxText : List Char := "idx".toList
def probeText : List Char := "probe".toList
def tmpText : List Char := "tmp".toList

def parseAddress (id : List Char) (day : Date) : Except LayoutError SegmentAddress :=
  match parseCanonicalI64 id with
  | none => .error (.unexpectedLeafEntry id)
  | some value =>
    match SegmentId.new (Int64.ofInt value) with
    | none => .error (.segmentIdOutOfRange (Int64.ofInt value))
    | some id => SegmentAddress.inDay id day

def canonicalPair (pid seq : List Char) : Prop :=
  (parseCanonicalU64 pid).isSome ∧ (parseCanonicalU64 seq).isSome

instance decidableCanonicalPair (pid seq : List Char) : Decidable (canonicalPair pid seq) :=
  inferInstanceAs (Decidable (_ ∧ _))

def parseLeaf (name : List Char) (day : Date) : Except LayoutError ParsedLeaf :=
  match name.splitOn '.' with
  | [id, kind] =>
    if kind = zmsText then (parseAddress id day).map .zms
    else if kind = idxText then (parseAddress id day).map .idx
    else .error (.unexpectedLeafEntry name)
  | [id, kind, pid, seq, suffix] =>
    if kind = zmsText ∧ suffix = tmpText ∧ canonicalPair pid seq then
      (parseAddress id day).map (.temporary · .zms)
    else if kind = idxText ∧ suffix = tmpText ∧ canonicalPair pid seq then
      (parseAddress id day).map (.temporary · .idx)
    else .error (.unexpectedLeafEntry name)
  | [id, kind, probe, pid, seq, suffix] =>
    if kind = idxText ∧ probe = probeText ∧ suffix = tmpText ∧ canonicalPair pid seq then
      (parseAddress id day).map (.temporary · .indexProbe)
    else .error (.unexpectedLeafEntry name)
  | _ => .error (.unexpectedLeafEntry name)

namespace SegmentAddress

def idText (address : SegmentAddress) : List Char := decimalText address.id.value.toInt

def zmsName (address : SegmentAddress) : List Char := address.idText ++ '.' :: zmsText

def idxName (address : SegmentAddress) : List Char := address.idText ++ '.' :: idxText

/-- The name of a temporary file of the segment. -/
def temporaryName (address : SegmentAddress) (kind : TemporaryKind) (pid seq : Nat) :
    List Char :=
  let numbers := Nat.toDigits 10 pid ++ '.' :: (Nat.toDigits 10 seq ++ '.' :: tmpText)
  match kind with
  | .zms => address.zmsName ++ '.' :: numbers
  | .idx => address.idxName ++ '.' :: numbers
  | .indexProbe => address.idxName ++ '.' :: (probeText ++ '.' :: numbers)

end SegmentAddress

def ParsedLeaf.address : ParsedLeaf → SegmentAddress
  | .zms address => address
  | .idx address => address
  | .temporary address _ => address

/-- The names of a leaf: the one of the segment, or one of its temporary files. -/
inductive ParsedLeaf.Named : ParsedLeaf → List Char → Prop
  | zms (address : SegmentAddress) : Named (.zms address) address.zmsName
  | idx (address : SegmentAddress) : Named (.idx address) address.idxName
  | temporary (address : SegmentAddress) (kind : TemporaryKind) {pid seq : Nat}
      (hpid : pid < 2 ^ 64) (hseq : seq < 2 ^ 64) :
      Named (.temporary address kind) (address.temporaryName kind pid seq)

theorem dot_not_mem_idText (address : SegmentAddress) : '.' ∉ address.idText := by
  rw [SegmentAddress.idText]
  generalize address.id.value.toInt = value
  cases value with
  | ofNat n => exact not_mem_toDigits n (by decide)
  | negSucc n =>
    rw [decimalText, List.mem_cons, not_or]
    exact ⟨by decide, not_mem_toDigits (n + 1) (by decide)⟩

theorem parseAddress_own (address : SegmentAddress) :
    parseAddress address.idText address.day = .ok address := by
  rw [parseAddress, SegmentAddress.idText,
    parseCanonicalI64_decimal (Int64.le_toInt _) (Int64.toInt_lt _)]
  dsimp only
  rw [Int64.ofInt_toInt, SegmentId.new_value]
  exact address.inDay_own

variable {day : Date}

theorem parseAddress_eq {address : SegmentAddress}
    (h : parseAddress text day = .ok address) : text = address.idText ∧ address.day = day := by
  rw [parseAddress] at h
  split at h
  · cases h
  · rename_i value hvalue
    split at h
    · cases h
    · rename_i id hid
      obtain ⟨htext, hlow, hhigh⟩ := parseCanonicalI64_eq hvalue
      obtain ⟨haddress, hday⟩ := SegmentAddress.inDay_eq_ok h
      have hbits := SegmentId.value_of_new hid
      refine ⟨?_, hday⟩
      rw [htext, SegmentAddress.idText, haddress, ← hbits, Int64.toInt_ofInt_of_le hlow hhigh]

/-! ## Round trips -/

theorem splitOn_zmsName (address : SegmentAddress) :
    address.zmsName.splitOn '.' = [address.idText, zmsText] := by
  rw [SegmentAddress.zmsName,
    List.splitOn_append_cons_self_of_not_mem (dot_not_mem_idText address),
    List.splitOn_eq_singleton (by decide)]

theorem splitOn_idxName (address : SegmentAddress) :
    address.idxName.splitOn '.' = [address.idText, idxText] := by
  rw [SegmentAddress.idxName,
    List.splitOn_append_cons_self_of_not_mem (dot_not_mem_idText address),
    List.splitOn_eq_singleton (by decide)]

theorem parseLeaf_zmsName (address : SegmentAddress) :
    parseLeaf address.zmsName address.day = .ok (.zms address) := by
  rw [parseLeaf, splitOn_zmsName]
  dsimp only
  rw [parseAddress_own]
  rfl

theorem parseLeaf_idxName (address : SegmentAddress) :
    parseLeaf address.idxName address.day = .ok (.idx address) := by
  rw [parseLeaf, splitOn_idxName]
  dsimp only
  rw [parseAddress_own]
  rfl

theorem name_of_splitOn {name : List Char} {fields : List (List Char)}
    (h : name.splitOn '.' = fields) : name = ['.'].intercalate fields := by
  rw [← h, List.intercalate_splitOn]

theorem digits_of_canonicalPair {pid seq : List Char} (h : canonicalPair pid seq) :
    ∃ p q, p < 2 ^ 64 ∧ q < 2 ^ 64 ∧ pid = Nat.toDigits 10 p ∧ seq = Nat.toDigits 10 q := by
  obtain ⟨p, hp⟩ := Option.isSome_iff_exists.mp h.1
  obtain ⟨q, hq⟩ := Option.isSome_iff_exists.mp h.2
  obtain ⟨hpid, hpLt⟩ := parseCanonicalU64_eq hp
  obtain ⟨hseq, hqLt⟩ := parseCanonicalU64_eq hq
  exact ⟨p, q, hpLt, hqLt, hpid, hseq⟩

theorem named_temporary {fields : List (List Char)}
    {leaf : ParsedLeaf} {kind : TemporaryKind} {pid seq : List Char} (hpair : canonicalPair pid seq)
    (h : (parseAddress text day).map (.temporary · kind) = Except.ok leaf)
    (hfields : ∀ (address : SegmentAddress) (p q : Nat), text = address.idText →
      pid = Nat.toDigits 10 p → seq = Nat.toDigits 10 q →
      ['.'].intercalate fields = address.temporaryName kind p q) :
    leaf.Named (['.'].intercalate fields) ∧ leaf.address.day = day := by
  obtain ⟨address, haddress, rfl⟩ := map_eq_ok h
  obtain ⟨htext, hday⟩ := parseAddress_eq haddress
  obtain ⟨p, q, hp, hq, hpid, hseq⟩ := digits_of_canonicalPair hpair
  rw [hfields address p q htext hpid hseq]
  exact ⟨.temporary address kind hp hq, hday⟩

theorem named_of_parseLeaf {name : List Char} {leaf : ParsedLeaf}
    (h : parseLeaf name day = .ok leaf) : leaf.Named name ∧ leaf.address.day = day := by
  rw [parseLeaf] at h
  split at h
  · rename_i id kind hsplit
    rw [name_of_splitOn hsplit]
    split at h
    · rename_i hkind
      obtain ⟨address, haddress, rfl⟩ := map_eq_ok h
      obtain ⟨rfl, hday⟩ := parseAddress_eq haddress
      rw [hkind]
      exact ⟨.zms address, hday⟩
    · split at h
      · rename_i hkind
        obtain ⟨address, haddress, rfl⟩ := map_eq_ok h
        obtain ⟨rfl, hday⟩ := parseAddress_eq haddress
        rw [hkind]
        exact ⟨.idx address, hday⟩
      · cases h
  · rename_i id kind pid seq suffix hsplit
    rw [name_of_splitOn hsplit]
    split at h
    · rename_i hcond
      obtain ⟨rfl, rfl, hpair⟩ := hcond
      apply named_temporary hpair h
      rintro address p q rfl rfl rfl
      simp [SegmentAddress.temporaryName, SegmentAddress.zmsName]
    · split at h
      · rename_i hcond
        obtain ⟨rfl, rfl, hpair⟩ := hcond
        apply named_temporary hpair h
        rintro address p q rfl rfl rfl
        simp [SegmentAddress.temporaryName, SegmentAddress.idxName]
      · cases h
  · rename_i id kind probe pid seq suffix hsplit
    rw [name_of_splitOn hsplit]
    split at h
    · rename_i hcond
      obtain ⟨rfl, rfl, rfl, hpair⟩ := hcond
      apply named_temporary hpair h
      rintro address p q rfl rfl rfl
      simp [SegmentAddress.temporaryName, SegmentAddress.idxName]
    · cases h
  · cases h

/-! ## Addresses and the calendar -/

/-- Every id lies in the one day that it is put under, earlier ids under no later days;
dates and day numbers are in bijection; and leaf names and addresses agree. -/
theorem layout_agrees :
    (∀ id : SegmentId, ∃ day, utcDay id = .ok day ∧ day.Valid ∧ 0 ≤ day.year ∧
        day.year ≤ 9999 ∧ InDay id.value day ∧
        ∀ other : Date, other.Valid → InDay id.value other → other = day) ∧
      (∀ days, ∃ date, civilFromDays days = some date ∧ date.Valid ∧ dayNumber date = days) ∧
      (∀ date : Date, date.Valid → civilFromDays (dayNumber date) = some date) ∧
      (∀ (id later : SegmentId) (day laterDay : Date), id.value.toInt ≤ later.value.toInt →
        utcDay id = .ok day → utcDay later = .ok laterDay → ¬ laterDay.Before day) ∧
      (∀ address : SegmentAddress,
        parseLeaf address.zmsName address.day = .ok (.zms address) ∧
          parseLeaf address.idxName address.day = .ok (.idx address)) ∧
      ∀ (name : List Char) (day : Date) (leaf : ParsedLeaf), parseLeaf name day = .ok leaf →
        leaf.Named name ∧ leaf.address.day = day := by
  refine ⟨?_, civilFromDays_ok, fun _ => civilFromDays_dayNumber,
    fun _ _ _ _ hle h hlater => utcDay_mono hle h hlater,
    fun address => ⟨parseLeaf_zmsName address, parseLeaf_idxName address⟩,
    fun _ _ _ => named_of_parseLeaf⟩
  intro id
  obtain ⟨day, hday, hvalid, hlow, hhigh, hin⟩ := utcDay_ok id
  exact ⟨day, hday, hvalid, hlow, hhigh, hin, fun _ hother => utcDay_eq hday hother⟩

/-- The name of a temporary file is accepted, and is not the one of its segment. -/
theorem parseLeaf_temporary :
    ∃ leaf, parseLeaf "0.zms.1.2.tmp".toList ⟨1970, 1, 1⟩ = .ok leaf ∧
      "0.zms.1.2.tmp".toList ≠ leaf.address.zmsName ∧
      "0.zms.1.2.tmp".toList ≠ leaf.address.idxName := by
  refine ⟨.temporary ⟨⟨0, by decide⟩, ⟨1970, 1, 1⟩, by rfl⟩ .zms, ?_, by decide, by decide⟩
  rfl

end Kronika.Layout
