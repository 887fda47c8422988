/-
The mounts of a process, as the kernel writes them and as they are read.

The kernel writes a mount on a line.  Four of its fields are text, in which five characters are
written as octal escapes; no other white space is.  A reader that ends its fields at any white
space reads back the mounts without the other kinds.
-/
import Kronika.Library.Integers
import Kronika.Library.Search
import Kronika.Library.Utf8Text
import Kronika.Library.Words

namespace Kronika.SourceOs

open Library Words Utf8

abbrev Chars := List Char

/-! ## Reading -/

structure MountEntry where
  mountId : Int
  parentId : Int
  major : Int
  minor : Int
  root : Chars
  mountPoint : Chars
  fstype : Chars
  source : Chars
  deleted : Bool
  isK8sInfra : Bool
deriving DecidableEq

def k8sInfraMounts : List Chars :=
  ["/etc/hosts".toList, "/etc/hostname".toList, "/etc/resolv.conf".toList,
    "/dev/termination-log".toList, "/run/secrets/".toList, "/var/run/secrets/".toList]

def isK8sInfraMount (path : Chars) : Bool :=
  k8sInfraMounts.any fun infra => path == infra || infra.isPrefixOf path

def backslash : UInt8 := 0x5C

def octalDigit (byte : UInt8) : Option Nat :=
  if 0x30 ≤ byte ∧ byte ≤ 0x37 then some (byte.toNat - 0x30) else none

/-- The byte of three octal digits. -/
def octalByte (a b c : UInt8) : Option UInt8 := do
  let a ← octalDigit a
  let b ← octalDigit b
  let c ← octalDigit c
  let value := a * 64 + b * 8 + c
  if value < 256 then some (UInt8.ofNat value) else none

/-- A backslash that begins no escape stands for itself. -/
def unescapeBytes : List UInt8 → List UInt8
  | byte :: a :: b :: c :: rest =>
    match if byte = backslash then octalByte a b c else none with
    | some value => value :: unescapeBytes rest
    | none => byte :: unescapeBytes (a :: b :: c :: rest)
  | byte :: rest => byte :: unescapeBytes rest
  | [] => []

def unescapeMountinfoField (field : Chars) : Chars := decodeLossy (unescapeBytes (encode field))

/-- Any backslash begins an escape. -/
def unescapeMountBytes : List UInt8 → Option (List UInt8)
  | byte :: a :: b :: c :: rest =>
    if byte = backslash then do
      let value ← octalByte a b c
      let out ← unescapeMountBytes rest
      some (value :: out)
    else (unescapeMountBytes (a :: b :: c :: rest)).map (byte :: ·)
  | byte :: rest => if byte = backslash then none else (unescapeMountBytes rest).map (byte :: ·)
  | [] => some []

def unescapeMount (value : Chars) : Option Chars :=
  (unescapeMountBytes (encode value)).bind decode

def separator : Chars := " - ".toList

def parseI32 (text : Chars) : Option Int := parseSigned 32 (String.ofList text)

/-- The entry of the words before and behind the separator. -/
def parseFields : List Chars → List Chars → Option MountEntry
  | mountId :: parentId :: device :: root :: mountPoint :: _, fstype :: source :: _ => do
    let mountId ← parseI32 mountId
    let parentId ← parseI32 parentId
    let (major, minor) ← cut [':'] device
    let major ← parseI32 major
    let minor ← parseI32 minor
    let mountPoint := unescapeMountinfoField mountPoint
    some {
      mountId := mountId, parentId := parentId, major := major, minor := minor
      root := unescapeMountinfoField root
      isK8sInfra := isK8sInfraMount mountPoint
      deleted := " (deleted)".toList.isSuffixOf mountPoint
      mountPoint := mountPoint
      fstype := unescapeMountinfoField fstype
      source := unescapeMountinfoField source }
  | _, _ => none

def parseLine (text : Chars) : Option MountEntry := do
  let (head, tail) ← cut separator text
  parseFields (words head) (words tail)

def parseMountinfo (content : Chars) : List MountEntry := (lines content).filterMap parseLine

/-! ## Writing -/

def escapedChars : Chars := [' ', '\t', '\n', '\\', '#']

def escapeChar (c : Char) : Chars :=
  if c ∈ escapedChars then
    ['\\', Nat.digitChar (c.toNat / 64), Nat.digitChar (c.toNat / 8 % 8),
      Nat.digitChar (c.toNat % 8)]
  else [c]

def escape (field : Chars) : Chars := field.flatMap escapeChar

/-- A mount of the kernel.  The options come behind `rw` or `ro`. -/
structure Mount where
  mountId : Int
  parentId : Int
  major : Int
  minor : Int
  root : Chars
  mountPoint : Chars
  readOnly : Bool
  options : Chars
  optional : List Chars
  fstype : Chars
  source : Chars
  superReadOnly : Bool
  superOptions : Chars

def access (readOnly : Bool) : Chars := if readOnly then "ro".toList else "rw".toList

def spaced (fields : List Chars) : Chars := fields.flatMap (' ' :: ·)

namespace Mount

def device (mount : Mount) : Chars :=
  decimalText mount.major ++ ':' :: decimalText mount.minor

def fields (mount : Mount) : List Chars :=
  [decimalText mount.parentId, mount.device, escape mount.root, escape mount.mountPoint,
    access mount.readOnly ++ mount.options] ++ mount.optional

def head (mount : Mount) : Chars := decimalText mount.mountId ++ spaced mount.fields

def front (mount : Mount) : Chars :=
  mount.head ++ separator ++ escape mount.fstype ++ ' ' :: escape mount.source ++ [' ']

def back (mount : Mount) : Chars := access mount.superReadOnly ++ mount.superOptions

def text (mount : Mount) : Chars := mount.front ++ mount.back

/-- What is to be read of a mount. -/
def entry (mount : Mount) : MountEntry where
  mountId := mount.mountId
  parentId := mount.parentId
  major := mount.major
  minor := mount.minor
  root := mount.root
  mountPoint := mount.mountPoint
  fstype := mount.fstype
  source := mount.source
  deleted := " (deleted)".toList.isSuffixOf mount.mountPoint
  isK8sInfra := isK8sInfraMount mount.mountPoint

def texts (mount : Mount) : List Chars :=
  [mount.root, mount.mountPoint, mount.fstype, mount.source]

end Mount

/-- What `/proc/self/mountinfo` has. -/
def mountinfo (mounts : List Mount) : Chars := Lines.join '\n' (mounts.map Mount.text)

/-- The numbers have their widths, the texts are not empty, and the other fields keep to the
format: an optional field is none of white space and no separator. -/
structure Mount.Written (mount : Mount) : Prop where
  numbers : ∀ number ∈ [mount.mountId, mount.parentId, mount.major, mount.minor],
    -2 ^ 31 ≤ number ∧ number < 2 ^ 31
  texts : ∀ field ∈ mount.texts, field ≠ []
  options : ' ' ∉ mount.options ∧ '\n' ∉ mount.options
  optional : ∀ field ∈ mount.optional, field ≠ ['-'] ∧ ' ' ∉ field ∧ '\n' ∉ field
  superOptions : '\n' ∉ mount.superOptions

def wild (c : Char) : Bool := isWhitespace c && decide (c ∉ escapedChars)

/-- No text of the mount has white space that is not escaped, and its two paths do not read as the
separator. -/
structure Mount.Plain (mount : Mount) : Prop where
  texts : ∀ field ∈ mount.texts, ∀ c ∈ field, wild c = false
  root : mount.root ≠ ['-']
  mountPoint : mount.mountPoint ≠ ['-']

/-! ## Escapes -/

section Escapes

variable {c : Char} {byte : UInt8} {bytes : List UInt8} {field : Chars}

theorem unescapeBytes_cons (h : byte ≠ backslash) (rest : List UInt8) :
    unescapeBytes (byte :: rest) = byte :: unescapeBytes rest := by
  rcases rest with _ | ⟨a, _ | ⟨b, _ | ⟨c, rest⟩⟩⟩
  · rw [unescapeBytes]
    simp
  · rw [unescapeBytes]
    simp
  · rw [unescapeBytes]
    simp
  · rw [unescapeBytes, if_neg h]

theorem unescapeBytes_append (h : backslash ∉ bytes) (rest : List UInt8) :
    unescapeBytes (bytes ++ rest) = bytes ++ unescapeBytes rest := by
  induction bytes with
  | nil => rfl
  | cons byte bytes ih =>
    obtain ⟨hbyte, hbytes⟩ := not_or.mp (List.mem_cons.not.mp h)
    rw [List.cons_append, unescapeBytes_cons (Ne.symm hbyte), ih hbytes, List.cons_append]

theorem unescapeMountBytes_cons (h : byte ≠ backslash) (rest : List UInt8) :
    unescapeMountBytes (byte :: rest) = (unescapeMountBytes rest).map (byte :: ·) := by
  rcases rest with _ | ⟨a, _ | ⟨b, _ | ⟨c, rest⟩⟩⟩
  · rw [unescapeMountBytes, if_neg h]
    simp
  · rw [unescapeMountBytes, if_neg h]
    simp
  · rw [unescapeMountBytes, if_neg h]
    simp
  · rw [unescapeMountBytes, if_neg h]

theorem unescapeMountBytes_append (h : backslash ∉ bytes) (rest : List UInt8) :
    unescapeMountBytes (bytes ++ rest) = (unescapeMountBytes rest).map (bytes ++ ·) := by
  induction bytes with
  | nil => exact Option.map_id'.symm
  | cons byte bytes ih =>
    obtain ⟨hbyte, hbytes⟩ := not_or.mp (List.mem_cons.not.mp h)
    rw [List.cons_append, unescapeMountBytes_cons (Ne.symm hbyte), ih hbytes, Option.map_map]
    rfl

theorem backslash_not_mem (h : c ∉ escapedChars) : backslash ∉ String.utf8EncodeChar c := by
  intro hmem
  have hnat : c.toNat = 0x5C := toNat_of_mem_utf8EncodeChar hmem (by decide)
  have hchar : c = '\\' := by rw [← Char.ofNat_toNat c, hnat]
  rw [hchar] at h
  exact h (by decide)

theorem encode_escaped (h : c ∈ escapedChars) : ∃ first second third value,
    encode (escapeChar c) = [backslash, first, second, third] ∧
      octalByte first second third = some value ∧ String.utf8EncodeChar c = [value] := by
  simp only [escapedChars, List.mem_cons, List.not_mem_nil, or_false] at h
  rcases h with rfl | rfl | rfl | rfl | rfl
  all_goals exact ⟨_, _, _, _, rfl, rfl, rfl⟩

theorem encode_unescaped (h : c ∉ escapedChars) :
    encode (escapeChar c) = String.utf8EncodeChar c := by
  rw [escapeChar, if_neg h]
  exact List.append_nil _

theorem unescapeBytes_escapeChar (c : Char) (rest : List UInt8) :
    unescapeBytes (encode (escapeChar c) ++ rest) =
      String.utf8EncodeChar c ++ unescapeBytes rest := by
  by_cases h : c ∈ escapedChars
  · obtain ⟨first, second, third, value, hbytes, hoctal, hvalue⟩ := encode_escaped h
    rw [hbytes, hvalue]
    show unescapeBytes (backslash :: first :: second :: third :: rest) = _
    rw [unescapeBytes, hoctal]
    rfl
  · rw [encode_unescaped h, unescapeBytes_append (backslash_not_mem h)]

theorem unescapeMountBytes_escapeChar (c : Char) (rest : List UInt8) :
    unescapeMountBytes (encode (escapeChar c) ++ rest) =
      (unescapeMountBytes rest).map (String.utf8EncodeChar c ++ ·) := by
  by_cases h : c ∈ escapedChars
  · obtain ⟨first, second, third, value, hbytes, hoctal, hvalue⟩ := encode_escaped h
    rw [hbytes, hvalue]
    show unescapeMountBytes (backslash :: first :: second :: third :: rest) = _
    rw [unescapeMountBytes, hoctal]
    cases unescapeMountBytes rest with
    | none => rfl
    | some out => rfl
  · rw [encode_unescaped h, unescapeMountBytes_append (backslash_not_mem h)]

theorem escape_cons (c : Char) (field : Chars) :
    escape (c :: field) = escapeChar c ++ escape field := List.flatMap_cons

theorem unescapeBytes_escape (field : Chars) :
    unescapeBytes (encode (escape field)) = encode field := by
  induction field with
  | nil => rfl
  | cons c field ih =>
    rw [escape_cons, encode_append, unescapeBytes_escapeChar, ih, encode_cons]

theorem unescapeMountBytes_escape (field : Chars) :
    unescapeMountBytes (encode (escape field)) = some (encode field) := by
  induction field with
  | nil => rfl
  | cons c field ih =>
    rw [escape_cons, encode_append, unescapeMountBytes_escapeChar, ih]
    rfl

theorem unescapeMountinfoField_escape (field : Chars) :
    unescapeMountinfoField (escape field) = field := by
  rw [unescapeMountinfoField, unescapeBytes_escape, decodeLossy_encode]

theorem unescapeMount_escape (field : Chars) : unescapeMount (escape field) = some field := by
  rw [unescapeMount, unescapeMountBytes_escape, Option.bind_some, decode_encode]

end Escapes

/-! ## Words of a line -/

section Fields

variable {c : Char} {field first word : Chars} {fields : List Chars}

theorem escapeChar_plain (h : wild c = false) : ∀ d ∈ escapeChar c, isWhitespace d = false := by
  rw [escapeChar]
  by_cases hmem : c ∈ escapedChars
  · simp only [escapedChars, List.mem_cons, List.not_mem_nil, or_false] at hmem
    rcases hmem with rfl | rfl | rfl | rfl | rfl
    all_goals exact List.forall_iff_forall_mem.mp (by decide)
  · rw [if_neg hmem]
    intro d hd
    rw [List.mem_singleton.mp hd]
    rw [wild, decide_eq_true hmem, Bool.and_true] at h
    exact h

theorem escapeChar_wild (h : wild c = true) : escapeChar c = [c] ∧ isWhitespace c = true := by
  rw [wild, Bool.and_eq_true, decide_eq_true_eq] at h
  exact ⟨if_neg h.2, h.1⟩

theorem splitOnP_escape (field : Chars) :
    (escape field).splitOnP isWhitespace = (field.splitOnP wild).map escape := by
  induction field with
  | nil => rfl
  | cons c field ih =>
    rw [escape_cons, List.splitOnP_cons_eq_if_modifyHead]
    by_cases h : wild c = true
    · obtain ⟨hescape, hspace⟩ := escapeChar_wild h
      rw [if_pos h, hescape, List.singleton_append, List.splitOnP_cons_eq_if_modifyHead,
        if_pos hspace, ih]
      rfl
    · rw [if_neg h, splitOnP_append_of_plain (escapeChar_plain (Bool.eq_false_iff.mpr h)), ih]
      cases field.splitOnP wild with
      | nil => rfl
      | cons piece pieces =>
        rw [List.modifyHead_cons, List.map_cons, List.map_cons, List.modifyHead_cons, escape_cons]

theorem unescape_word (h : word ∈ words (escape field)) :
    ∀ c ∈ unescapeMountinfoField word, wild c = false := by
  obtain ⟨hmem, _⟩ := List.mem_filter.mp h
  rw [splitOnP_escape] at hmem
  obtain ⟨part, hpart, rfl⟩ := List.mem_map.mp hmem
  rw [unescapeMountinfoField_escape]
  exact splitOnP_plain hpart

theorem escape_ne_nil (h : field ≠ []) : escape field ≠ [] := by
  cases field with
  | nil => exact absurd rfl h
  | cons c field =>
    rw [escape_cons, escapeChar]
    split_ifs
    · exact List.cons_ne_nil _ _
    · exact List.cons_ne_nil _ _

theorem words_escape (hne : field ≠ []) (h : ∀ c ∈ field, wild c = false) :
    words (escape field) = [escape field] := by
  apply words_word
  refine ⟨escape_ne_nil hne, fun d hd => ?_⟩
  obtain ⟨c, hc, hd⟩ := List.mem_flatMap.mp hd
  exact escapeChar_plain (h c hc) d hd

theorem words_spaced (first : Chars) (fields : List Chars) :
    words (first ++ spaced fields) = words first ++ fields.flatMap words := by
  induction fields generalizing first with
  | nil =>
    show words (first ++ []) = words first ++ []
    rw [List.append_nil, List.append_nil]
  | cons field fields ih =>
    show words (first ++ ' ' :: (field ++ spaced fields)) = _
    rw [words_append_space, ih, List.flatMap_cons]

/-! ## The separator -/

theorem cut_skip (h : ' ' ∉ first) (rest : Chars) :
    cut separator (first ++ rest) =
      (cut separator rest).map fun parts => (first ++ parts.1, parts.2) := by
  induction first with
  | nil => exact Option.map_id'.symm
  | cons c first ih =>
    obtain ⟨hc, hfirst⟩ := not_or.mp (List.mem_cons.not.mp h)
    have hprefix : separator.isPrefixOf (c :: (first ++ rest)) = false := by
      show (' ' == c && _) = false
      rw [beq_eq_false_iff_ne.mpr hc, Bool.false_and]
    rw [List.cons_append, cut, hprefix, ih hfirst, Option.map_map]
    rfl

theorem not_isPrefixOf_field (hdash : field ≠ ['-']) (hspace : ' ' ∉ field) (rest : Chars) :
    separator.isPrefixOf (' ' :: (field ++ ' ' :: rest)) = false := by
  show ('-' :: ' ' :: []).isPrefixOf (field ++ ' ' :: rest) = false
  rcases field with _ | ⟨x, _ | ⟨y, field⟩⟩
  · rfl
  · have hne : '-' ≠ x := fun heq => hdash (by rw [heq])
    show ('-' == x && _) = false
    rw [beq_eq_false_iff_ne.mpr hne, Bool.false_and]
  · have hne : ' ' ≠ y := fun heq =>
      hspace (by rw [heq]; exact List.mem_cons_of_mem _ List.mem_cons_self)
    show ('-' == x && (' ' == y && _)) = false
    rw [beq_eq_false_iff_ne.mpr hne, Bool.false_and, Bool.and_false]

theorem cut_fields (h : ∀ field ∈ fields, field ≠ ['-'] ∧ ' ' ∉ field) (tail : Chars) :
    cut separator (spaced fields ++ (separator ++ tail)) = some (spaced fields, tail) := by
  induction fields with
  | nil => rfl
  | cons field fields ih =>
    obtain ⟨⟨hdash, hspace⟩, hfields⟩ := List.forall_mem_cons.mp h
    have hbehind : ∃ rest, spaced fields ++ (separator ++ tail) = ' ' :: rest := by
      cases fields with
      | nil => exact ⟨_, rfl⟩
      | cons next fields => exact ⟨_, rfl⟩
    obtain ⟨rest, hrest⟩ := hbehind
    have hprefix := not_isPrefixOf_field hdash hspace rest
    rw [← hrest] at hprefix
    show cut separator (' ' :: (field ++ spaced fields ++ (separator ++ tail))) = _
    rw [List.append_assoc, cut, hprefix, cut_skip hspace, ih hfields]
    rfl

theorem cut_spaced (hfirst : ' ' ∉ first)
    (h : ∀ field ∈ fields, field ≠ ['-'] ∧ ' ' ∉ field) (tail : Chars) :
    cut separator (first ++ spaced fields ++ (separator ++ tail)) =
      some (first ++ spaced fields, tail) := by
  rw [List.append_assoc, cut_skip hfirst, cut_fields h]
  rfl

end Fields

/-! ## Numbers of a line -/

section Numbers

variable {number : Int} {c : Char} {mount : Mount}

theorem parseI32_decimal (h : -2 ^ 31 ≤ number ∧ number < 2 ^ 31) :
    parseI32 (decimalText number) = some number :=
  parseSigned_decimalText h.1 h.2

theorem of_mem_decimal (h : c ∈ decimalText number) : ('0' ≤ c ∧ c ≤ '9') ∨ c = '-' := by
  by_contra hnot
  obtain ⟨hdigit, hsign⟩ := not_or.mp hnot
  exact not_mem_decimalText number hdigit hsign h

theorem decimal_plain : ∀ c ∈ decimalText number, isWhitespace c = false := by
  intro c hc
  rcases of_mem_decimal hc with hdigit | rfl
  · exact isWhitespace_digit hdigit.1 hdigit.2
  · rfl

theorem words_decimal (number : Int) :
    words (decimalText number) = [decimalText number] :=
  words_word ⟨decimalText_ne_nil number, decimal_plain⟩

theorem device_plain : ∀ c ∈ mount.device, isWhitespace c = false := by
  intro c hc
  rcases List.mem_append.mp hc with hmajor | hminor
  · exact decimal_plain c hmajor
  · rcases List.mem_cons.mp hminor with rfl | hminor
    · rfl
    · exact decimal_plain c hminor

theorem words_device (mount : Mount) : words mount.device = [mount.device] :=
  words_word ⟨by simp [Mount.device], device_plain⟩

theorem cut_device (mount : Mount) :
    cut [':'] mount.device =
      some (decimalText mount.major, decimalText mount.minor) := by
  have hmajor := not_mem_decimalText mount.major (c := ':') (by decide) (by decide)
  rw [Mount.device]
  generalize decimalText mount.major = major at hmajor ⊢
  induction major with
  | nil => rfl
  | cons c major ih =>
    obtain ⟨hc, hmajor⟩ := not_or.mp (List.mem_cons.not.mp hmajor)
    have hprefix : [':'].isPrefixOf (c :: (major ++ ':' :: decimalText mount.minor)) =
        false := by
      show (':' == c && _) = false
      rw [beq_eq_false_iff_ne.mpr hc, Bool.false_and]
    rw [List.cons_append, cut, hprefix, ih hmajor]
    rfl

end Numbers

/-! ## Entries -/

section Entries

variable {mount : Mount} {head tail content field word : Chars} {others paths sources : List Chars}

/-- The entry of the words behind the numbers, and of those behind the separator. -/
def Mount.read (mount : Mount) : List Chars → List Chars → Option MountEntry
  | root :: mountPoint :: _, fstype :: source :: _ =>
    some {
      mountId := mount.mountId, parentId := mount.parentId
      major := mount.major, minor := mount.minor
      root := unescapeMountinfoField root
      mountPoint := unescapeMountinfoField mountPoint
      fstype := unescapeMountinfoField fstype
      source := unescapeMountinfoField source
      deleted := " (deleted)".toList.isSuffixOf (unescapeMountinfoField mountPoint)
      isK8sInfra := isK8sInfraMount (unescapeMountinfoField mountPoint) }
  | _, _ => none

theorem parseLine_eq (hwritten : mount.Written) (hcut : cut separator content = some (head, tail))
    (hhead : words head = decimalText mount.mountId ::
      decimalText mount.parentId :: mount.device :: paths) :
    parseLine content = mount.read paths (words tail) := by
  have hnumbers := hwritten.numbers
  have hmount := parseI32_decimal (hnumbers mount.mountId (by simp))
  have hparent := parseI32_decimal (hnumbers mount.parentId (by simp))
  have hmajor := parseI32_decimal (hnumbers mount.major (by simp))
  have hminor := parseI32_decimal (hnumbers mount.minor (by simp))
  rw [parseLine, hcut]
  show parseFields (words head) (words tail) = _
  rw [hhead]
  rcases paths with _ | ⟨root, _ | ⟨mountPoint, paths⟩⟩
  · rfl
  · rfl
  · rcases words tail with _ | ⟨fstype, _ | ⟨source, sources⟩⟩
    · rfl
    · rfl
    · simp only [parseFields, hmount, hparent, hmajor, hminor, cut_device, Option.bind_eq_bind,
        Option.bind_some]
      rfl

/-- A word that is read without wild white space, or begins as the options do. -/
def Settled (word : Chars) : Prop :=
  (∀ c ∈ unescapeMountinfoField word, wild c = false) ∨ word.head? = some 'r'

theorem head?_unescape (h : word.head? = some 'r') (hne : unescapeMountinfoField word ≠ []) :
    (unescapeMountinfoField word).head? = some 'r' := by
  obtain ⟨rest, rfl⟩ : ∃ rest, word = 'r' :: rest := List.head?_eq_some_iff.mp h
  show (decodeLossy (unescapeBytes (0x72 :: encode rest))).head? = some 'r'
  rw [unescapeBytes_cons (by decide)]
  apply head?_decodeLossy rfl rfl
  rw [← unescapeBytes_cons (by decide)]
  exact hne

theorem plain_of_first (hne : field ≠ [])
    (hothers : ∀ other, others.head? = some other → Settled other)
    (hfirst : (words (escape field) ++ others).head? = some word)
    (h : unescapeMountinfoField word = field) : ∀ c ∈ field, wild c = false := by
  cases hwords : words (escape field) with
  | cons first rest =>
    rw [hwords] at hfirst
    rw [← h, ← Option.some.inj hfirst]
    apply unescape_word
    rw [hwords]
    exact List.mem_cons_self
  | nil =>
    rw [hwords] at hfirst
    rcases hothers word hfirst with hplain | hoptions
    · rw [← h]
      exact hplain
    · -- The field begins with a letter, and so does its first word.
      rw [← h] at hne
      have hhead := head?_unescape hoptions hne
      rw [h] at hhead
      obtain ⟨rest, rfl⟩ : ∃ rest, field = 'r' :: rest := List.head?_eq_some_iff.mp hhead
      have hsome : words (escape ('r' :: rest)) ≠ [] := by
        obtain ⟨first, others, hcons⟩ := words_cons (c := 'r') rfl (escape rest)
        show words ('r' :: escape rest) ≠ []
        rw [hcons]
        exact List.cons_ne_nil _ _
      exact absurd hwords hsome

theorem settled_options {back : Chars} (h : back.head? = some 'r') (others : List Chars) :
    ∀ other, (words back ++ others).head? = some other → Settled other := by
  obtain ⟨rest, rfl⟩ : ∃ rest, back = 'r' :: rest := List.head?_eq_some_iff.mp h
  obtain ⟨first, remaining, hcons⟩ := words_cons (c := 'r') rfl rest
  intro other hother
  rw [hcons] at hother
  rw [← Option.some.inj hother]
  exact Or.inr rfl

theorem settled_escape (hothers : ∀ other, others.head? = some other → Settled other)
    (field : Chars) :
    ∀ other, (words (escape field) ++ others).head? = some other → Settled other := by
  intro other hother
  cases hwords : words (escape field) with
  | nil =>
    rw [hwords] at hother
    exact hothers other hother
  | cons first rest =>
    rw [hwords] at hother
    rw [← Option.some.inj hother]
    have hmem : first ∈ words (escape field) := by
      rw [hwords]
      exact List.mem_cons_self
    exact Or.inl (unescape_word hmem)

theorem read_eq_some {sources : List Chars} (h : mount.read paths sources = some mount.entry) :
    ∃ root mountPoint fstype source, paths.head? = some root ∧ paths.tail.head? = some mountPoint ∧
      sources.head? = some fstype ∧ sources.tail.head? = some source ∧
      unescapeMountinfoField root = mount.root ∧
      unescapeMountinfoField mountPoint = mount.mountPoint ∧
      unescapeMountinfoField fstype = mount.fstype ∧
      unescapeMountinfoField source = mount.source := by
  rcases paths with _ | ⟨root, _ | ⟨mountPoint, paths⟩⟩
  · cases h
  · cases h
  · rcases sources with _ | ⟨fstype, _ | ⟨source, sources⟩⟩
    · cases h
    · cases h
    · have hentry := Option.some.inj h
      exact ⟨root, mountPoint, fstype, source, rfl, rfl, rfl, rfl, congrArg MountEntry.root hentry,
        congrArg MountEntry.mountPoint hentry, congrArg MountEntry.fstype hentry,
        congrArg MountEntry.source hentry⟩

theorem read_escape (mount : Mount) (paths sources : List Chars) :
    mount.read (escape mount.root :: escape mount.mountPoint :: paths)
      (escape mount.fstype :: escape mount.source :: sources) = some mount.entry := by
  rw [Mount.read]
  simp only [unescapeMountinfoField_escape]
  rfl

end Entries

/-! ## Lines -/

section MountLines

variable {mount : Mount} {fields : List Chars} {field text back : Chars} {c : Char}

def Ends (c : Char) : Prop := c = ' ' ∨ c = '\n'

theorem not_mem_escape (h : Ends c) (field : Chars) : c ∉ escape field := by
  intro hmem
  obtain ⟨d, _, hc⟩ := List.mem_flatMap.mp hmem
  rw [escapeChar] at hc
  by_cases hd : d ∈ escapedChars
  · simp only [escapedChars, List.mem_cons, List.not_mem_nil, or_false] at hd
    rcases h with rfl | rfl
    · rcases hd with rfl | rfl | rfl | rfl | rfl <;> exact absurd hc (by decide)
    · rcases hd with rfl | rfl | rfl | rfl | rfl <;> exact absurd hc (by decide)
  · rw [if_neg hd] at hc
    rw [← List.mem_singleton.mp hc] at hd
    rcases h with rfl | rfl
    · exact hd (by decide)
    · exact hd (by decide)

theorem not_mem_decimal (h : Ends c) (number : Int) : c ∉ decimalText number := by
  rcases h with rfl | rfl
  · exact not_mem_decimalText number (by decide) (by decide)
  · exact not_mem_decimalText number (by decide) (by decide)

theorem not_mem_device (h : Ends c) : c ∉ mount.device := by
  intro hmem
  have hplain := device_plain c hmem
  rcases h with rfl | rfl
  · exact absurd hplain (by decide)
  · exact absurd hplain (by decide)

theorem not_mem_access (h : Ends c) (readOnly : Bool) : c ∉ access readOnly := by
  rcases h with rfl | rfl
  · cases readOnly
    · decide
    · decide
  · cases readOnly
    · decide
    · decide

theorem head?_access (readOnly : Bool) (text : Chars) :
    (access readOnly ++ text).head? = some 'r' := by
  cases readOnly
  · rfl
  · rfl

def Mount.base (mount : Mount) : List Chars :=
  [decimalText mount.parentId, mount.device]

def Mount.tail (mount : Mount) (back : Chars) : Chars :=
  escape mount.fstype ++ ' ' :: (escape mount.source ++ ' ' :: back)

def Mount.rest (mount : Mount) : List Chars :=
  (access mount.readOnly ++ mount.options) :: mount.optional

theorem decimal_ne_dash (number : Int) : decimalText number ≠ ['-'] := by
  cases number with
  | ofNat n =>
    intro heq
    have hdash : '-' ∈ Nat.toDigits 10 n := by
      show '-' ∈ decimalText (Int.ofNat n)
      rw [heq]
      exact List.mem_singleton.mpr rfl
    exact not_mem_toDigits n (by decide) hdash
  | negSucc n =>
    intro heq
    exact Nat.toDigits_ne_nil (List.cons.inj heq).2

theorem base_fields (mount : Mount) : ∀ field ∈ mount.base, field ≠ ['-'] ∧ ' ' ∉ field := by
  intro field hfield
  rcases List.mem_pair.mp hfield with rfl | rfl
  · exact ⟨decimal_ne_dash _, not_mem_decimal (Or.inl rfl) _⟩
  · refine ⟨fun heq => ?_, not_mem_device (Or.inl rfl)⟩
    have hcolon : ':' ∈ mount.device := List.mem_append_right _ List.mem_cons_self
    rw [heq] at hcolon
    exact absurd hcolon (by decide)

theorem rest_fields (h : mount.Written) : ∀ field ∈ mount.rest, field ≠ ['-'] ∧ ' ' ∉ field := by
  intro field hfield
  rcases List.mem_cons.mp hfield with rfl | hoptional
  · refine ⟨fun heq => ?_, fun hmem => ?_⟩
    · have hhead := head?_access mount.readOnly mount.options
      rw [heq] at hhead
      exact absurd hhead (by decide)
    · rcases List.mem_append.mp hmem with haccess | hoptions
      · exact not_mem_access (Or.inl rfl) _ haccess
      · exact h.options.1 hoptions
  · obtain ⟨hdash, hspace, _⟩ := h.optional field hoptional
    exact ⟨hdash, hspace⟩

theorem escape_field (h : field ≠ ['-']) : escape field ≠ ['-'] ∧ ' ' ∉ escape field := by
  refine ⟨fun heq => h ?_, not_mem_escape (Or.inl rfl) field⟩
  rw [← unescapeMountinfoField_escape field, heq]
  exact unescapeMountinfoField_escape ['-']

theorem parseLine_fields (hwritten : mount.Written)
    (h : ∀ field ∈ fields, field ≠ ['-'] ∧ ' ' ∉ field) (text : Chars) :
    parseLine (decimalText mount.mountId ++ spaced (mount.base ++ fields) ++
      (separator ++ text)) = mount.read (fields.flatMap words) (words text) := by
  have hfirst := not_mem_decimal (Or.inl rfl) mount.mountId
  have hcut := cut_spaced hfirst (List.forall_mem_append.mpr ⟨base_fields mount, h⟩) text
  apply parseLine_eq hwritten hcut
  rw [words_spaced, List.flatMap_append, words_decimal, Mount.base, List.flatMap_cons,
    List.flatMap_cons, words_decimal, words_device]
  rfl

theorem front_eq (mount : Mount) (back : Chars) :
    mount.front ++ back = decimalText mount.mountId ++
      spaced (mount.base ++ escape mount.root :: escape mount.mountPoint :: mount.rest) ++
        (separator ++ mount.tail back) := by
  simp [Mount.front, Mount.head, Mount.fields, Mount.base, Mount.rest, Mount.tail]

theorem front_of_root (h : mount.root = ['-']) (back : Chars) : ∃ text,
    mount.front ++ back =
      decimalText mount.mountId ++ spaced (mount.base ++ []) ++ (separator ++ text) := by
  refine ⟨escape mount.mountPoint ++ spaced mount.rest ++ (separator ++ mount.tail back), ?_⟩
  rw [front_eq, h]
  simp [spaced, separator, escape, escapeChar, escapedChars]

theorem front_of_mountPoint (h : mount.mountPoint = ['-']) (back : Chars) : ∃ text,
    mount.front ++ back = decimalText mount.mountId ++
      spaced (mount.base ++ [escape mount.root]) ++ (separator ++ text) := by
  refine ⟨(access mount.readOnly ++ mount.options) ++ spaced mount.optional ++
    (separator ++ mount.tail back), ?_⟩
  rw [front_eq, h]
  simp [spaced, separator, escape, escapeChar, escapedChars, Mount.rest]

theorem parseLine_front (hwritten : mount.Written) (hroot : mount.root ≠ ['-'])
    (hpoint : mount.mountPoint ≠ ['-']) (back : Chars) :
    parseLine (mount.front ++ back) =
      mount.read (words (escape mount.root) ++ (words (escape mount.mountPoint) ++
        mount.rest.flatMap words)) (words (escape mount.fstype) ++
          (words (escape mount.source) ++ words back)) := by
  have hfields := parseLine_fields hwritten (List.forall_mem_cons.mpr ⟨escape_field hroot,
    List.forall_mem_cons.mpr ⟨escape_field hpoint, rest_fields hwritten⟩⟩) (mount.tail back)
  rw [front_eq, hfields, List.flatMap_cons, List.flatMap_cons, Mount.tail, words_append_space,
    words_append_space]

theorem settled_rest (mount : Mount) :
    ∀ other, (mount.rest.flatMap words).head? = some other → Settled other :=
  settled_options (head?_access mount.readOnly mount.options) (mount.optional.flatMap words)

theorem settled_back (hback : back.head? = some 'r') :
    ∀ other, (words back).head? = some other → Settled other := by
  have h := settled_options hback []
  rw [List.append_nil] at h
  exact h

theorem root_plain (hwritten : mount.Written) (hroot : mount.root ≠ ['-'])
    (h : parseLine (mount.front ++ back) = some mount.entry) :
    ∀ c ∈ mount.root, wild c = false := by
  have hne : mount.root ≠ [] := hwritten.texts _ (by simp [Mount.texts])
  by_cases hpoint : mount.mountPoint = ['-']
  · obtain ⟨text, htext⟩ := front_of_mountPoint hpoint back
    rw [htext, parseLine_fields hwritten (List.forall_mem_singleton.mpr (escape_field hroot))] at h
    obtain ⟨root, _, _, _, hfirst, _, _, _, hread, _⟩ := read_eq_some h
    have hnone : ∀ other, ([] : List Chars).head? = some other → Settled other := by
      intro other hother
      cases hother
    exact plain_of_first hne hnone hfirst hread
  · rw [parseLine_front hwritten hroot hpoint] at h
    obtain ⟨root, _, _, _, hfirst, _, _, _, hread, _⟩ := read_eq_some h
    exact plain_of_first hne (settled_escape (settled_rest mount) _) hfirst hread

theorem parseLine_iff (hwritten : mount.Written) (hback : back.head? = some 'r') :
    parseLine (mount.front ++ back) = some mount.entry ↔ mount.Plain := by
  have hroot : mount.root ≠ [] := hwritten.texts _ (by simp [Mount.texts])
  have hpoint : mount.mountPoint ≠ [] := hwritten.texts _ (by simp [Mount.texts])
  have hfstype : mount.fstype ≠ [] := hwritten.texts _ (by simp [Mount.texts])
  have hsource : mount.source ≠ [] := hwritten.texts _ (by simp [Mount.texts])
  constructor
  · intro h
    have hrootDash : mount.root ≠ ['-'] := by
      intro heq
      obtain ⟨text, htext⟩ := front_of_root heq back
      rw [htext, parseLine_fields hwritten (List.forall_mem_nil _)] at h
      cases h
    have hrootPlain := root_plain hwritten hrootDash h
    have hpointDash : mount.mountPoint ≠ ['-'] := by
      intro heq
      obtain ⟨text, htext⟩ := front_of_mountPoint heq back
      rw [htext,
        parseLine_fields hwritten (List.forall_mem_singleton.mpr (escape_field hrootDash)),
        List.flatMap_singleton, words_escape hroot hrootPlain] at h
      cases h
    rw [parseLine_front hwritten hrootDash hpointDash, words_escape hroot hrootPlain] at h
    obtain ⟨_, mountPoint, fstype, source, _, hsecond, hfirst, hthird, _, hmountPoint, hread,
      hlast⟩ := read_eq_some h
    have hpointPlain := plain_of_first hpoint (settled_rest mount) hsecond hmountPoint
    have hfstypePlain := plain_of_first hfstype (settled_escape (settled_back hback) _) hfirst hread
    rw [words_escape hfstype hfstypePlain] at hthird
    have hsourcePlain := plain_of_first hsource (settled_back hback) hthird hlast
    refine ⟨fun field hfield => ?_, hrootDash, hpointDash⟩
    simp only [Mount.texts, List.mem_cons, List.not_mem_nil, or_false] at hfield
    rcases hfield with rfl | rfl | rfl | rfl
    · exact hrootPlain
    · exact hpointPlain
    · exact hfstypePlain
    · exact hsourcePlain
  · intro h
    rw [parseLine_front hwritten h.root h.mountPoint,
      words_escape hroot (h.texts _ (by simp [Mount.texts])),
      words_escape hpoint (h.texts _ (by simp [Mount.texts])),
      words_escape hfstype (h.texts _ (by simp [Mount.texts])),
      words_escape hsource (h.texts _ (by simp [Mount.texts]))]
    exact read_escape mount _ _

end MountLines

/-! ## Files -/

section Files

variable {mount : Mount} {mounts : List Mount} {c : Char}

theorem newline_not_mem_spaced {fields : List Chars} (h : ∀ field ∈ fields, '\n' ∉ field) :
    '\n' ∉ spaced fields := by
  intro hmem
  obtain ⟨field, hfield, hc⟩ := List.mem_flatMap.mp hmem
  rcases List.mem_cons.mp hc with heq | hc
  · exact absurd heq (by decide)
  · exact h field hfield hc

theorem newline_not_mem_text (h : mount.Written) : '\n' ∉ mount.text := by
  have hescape := not_mem_escape (Or.inr rfl)
  have haccess := not_mem_access (Or.inr rfl)
  have hfields : ∀ field ∈ mount.base ++ escape mount.root :: escape mount.mountPoint :: mount.rest,
      '\n' ∉ field := by
    intro field hfield
    simp only [Mount.base, Mount.rest, List.cons_append, List.nil_append, List.mem_cons] at hfield
    rcases hfield with rfl | rfl | rfl | rfl | rfl | hoptional
    · exact not_mem_decimal (Or.inr rfl) _
    · exact not_mem_device (Or.inr rfl)
    · exact hescape _
    · exact hescape _
    · rw [List.mem_append, not_or]
      exact ⟨haccess _, h.options.2⟩
    · exact (h.optional field hoptional).2.2
  rw [Mount.text, front_eq]
  simp only [Mount.tail, Mount.back, List.mem_append, List.mem_cons, not_or]
  exact ⟨⟨not_mem_decimal (Or.inr rfl) _, newline_not_mem_spaced hfields⟩, by decide, hescape _,
    by decide, hescape _, by decide, haccess _, h.superOptions⟩

theorem stripReturn_text (mount : Mount) : ∃ back : Chars, back.head? = some 'r' ∧
    stripReturn mount.text = mount.front ++ back := by
  have hback : ∃ c rest, mount.back = 'r' :: c :: rest := by
    rw [Mount.back]
    cases mount.superReadOnly
    · exact ⟨'w', _, rfl⟩
    · exact ⟨'o', _, rfl⟩
  obtain ⟨c, rest, hback⟩ := hback
  refine ⟨'r' :: stripReturn (c :: rest), rfl, ?_⟩
  have hsplit : mount.text = (mount.front ++ ['r']) ++ c :: rest := by
    rw [Mount.text, hback, List.append_assoc]
    rfl
  rw [hsplit, stripReturn_append (List.cons_ne_nil _ _), List.append_assoc]
  rfl

theorem filterMap_eq_map_iff {α γ : Type*} {f : α → Option γ} {e : α → γ} {items : List α} :
    items.filterMap f = items.map e ↔ ∀ item ∈ items, f item = some (e item) := by
  induction items with
  | nil => exact iff_of_true rfl (List.forall_mem_nil _)
  | cons item items ih =>
    rw [List.forall_mem_cons, ← ih, List.filterMap_cons, List.map_cons]
    cases hitem : f item with
    | none =>
      have hlength := List.length_filterMap_le f items
      refine iff_of_false (fun heq => ?_) (fun hboth => by cases hboth.1)
      dsimp only at heq
      rw [heq, List.length_cons, List.length_map] at hlength
      omega
    | some value =>
      show value :: _ = _ ↔ _
      rw [List.cons.injEq, Option.some_inj]

theorem parseMountinfo_eq_iff (h : ∀ mount ∈ mounts, mount.Written) :
    parseMountinfo (mountinfo mounts) = mounts.map Mount.entry ↔
      ∀ mount ∈ mounts, mount.Plain := by
  have hlines : ∀ piece ∈ mounts.map Mount.text, '\n' ∉ piece := by
    intro piece hpiece
    obtain ⟨mount, hmount, rfl⟩ := List.mem_map.mp hpiece
    exact newline_not_mem_text (h mount hmount)
  rw [parseMountinfo, mountinfo, lines_join_map hlines, List.map_map, List.filterMap_map,
    filterMap_eq_map_iff]
  refine forall_congr' fun mount => imp_congr_right fun hmount => ?_
  obtain ⟨back, hback, htext⟩ := stripReturn_text mount
  show parseLine (stripReturn mount.text) = _ ↔ _
  rw [htext, parseLine_iff (h mount hmount) hback]

/-- What the kernel writes is read back when no text of a mount has white space that is not
escaped and no path reads as the separator.  The strict decoder reads back any field. -/
theorem parseMountinfo_iff (h : ∀ mount ∈ mounts, mount.Written) :
    (parseMountinfo (mountinfo mounts) = mounts.map Mount.entry ∧
      ∀ mount ∈ mounts, ∀ field ∈ mount.texts, unescapeMount (escape field) = some field) ↔
      ∀ mount ∈ mounts, mount.Plain := by
  rw [parseMountinfo_eq_iff h]
  exact and_iff_left fun _ _ field _ => unescapeMount_escape field

/-- A data directory on a disk. -/
def dataMount (mountPoint : Chars) : Mount where
  mountId := 30
  parentId := 25
  major := 8
  minor := 1
  root := "/".toList
  mountPoint := mountPoint
  readOnly := false
  options := ",relatime".toList
  optional := ["shared:1".toList]
  fstype := "ext4".toList
  source := "/dev/disk one".toList
  superReadOnly := false
  superOptions := []

theorem dataMount_written {mountPoint : Chars} (h : mountPoint ≠ []) :
    (dataMount mountPoint).Written where
  numbers := by
    show ∀ number ∈ [(30 : Int), 25, 8, 1], _
    decide
  texts := by
    show ∀ field ∈ ["/".toList, mountPoint, "ext4".toList, "/dev/disk one".toList], field ≠ []
    exact List.forall_mem_cons.mpr ⟨by decide, List.forall_mem_cons.mpr ⟨h, by decide⟩⟩
  options := by
    show ' ' ∉ ",relatime".toList ∧ '\n' ∉ ",relatime".toList
    decide
  optional := by
    show ∀ field ∈ ["shared:1".toList], field ≠ ['-'] ∧ ' ' ∉ field ∧ '\n' ∉ field
    decide
  superOptions := List.not_mem_nil

theorem parseMountinfo_sample :
    parseMountinfo (mountinfo [dataMount "/data pg".toList]) =
      [(dataMount "/data pg".toList).entry] ∧
      ∀ mount ∈ [dataMount "/data pg".toList], ∀ field ∈ mount.texts,
        unescapeMount (escape field) = some field := by
  refine (parseMountinfo_iff (List.forall_mem_singleton.mpr
    (dataMount_written (by decide)))).mpr (List.forall_mem_singleton.mpr ⟨?_, ?_, ?_⟩)
  · have hall : ((dataMount "/data pg".toList).texts.all fun field =>
        field.all fun c => !wild c) = true := by decide
    intro field hfield c hc
    have htame := List.all_eq_true.mp (List.all_eq_true.mp hall field hfield) c hc
    rwa [Bool.not_eq_true'] at htame
  · decide
  · decide

/-- A no-break space ends a field. -/
theorem parseMountinfo_noBreakSpace :
    (dataMount "/data\u00A0pg".toList).Written ∧
      parseMountinfo (mountinfo [dataMount "/data\u00A0pg".toList]) ≠
        [(dataMount "/data\u00A0pg".toList).entry] := by
  have hwritten : (dataMount "/data\u00A0pg".toList).Written := dataMount_written (by decide)
  refine ⟨hwritten, fun heq => ?_⟩
  have hplain := (parseMountinfo_eq_iff (List.forall_mem_singleton.mpr hwritten)).mp heq
  have hwild := (hplain _ List.mem_cons_self).texts "/data\u00A0pg".toList (by decide)
  exact absurd (hwild '\u00A0' (by decide)) (by decide)

end Files

end Kronika.SourceOs
