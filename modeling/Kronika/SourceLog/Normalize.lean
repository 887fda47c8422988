/-
Grouping errors by what they say rather than by the values in them.

A text is the list of its characters.  The passes that the source runs over bytes look
for ASCII bytes only, which are characters of their own in UTF-8.
-/
import Kronika.Library.Search
import Mathlib.Algebra.GroupWithZero.Nat

namespace Kronika.SourceLog

open Library

abbrev Chars := List Char

inductive Severity where
  | log
  | warning
  | error
  | fatal
  | panic
deriving DecidableEq, Hashable

inductive ErrorCategory where
  | lock
  | constraint
  | serialization
  | timeout
  | resource
  | dataCorruption
  | system
  | connection
  | auth
  | syntaxError
  | other
deriving DecidableEq, Hashable

def maxPatternBytes : Nat := 256

def truncateChars : Chars → Nat → Chars
  | [], _ => []
  | c :: text, maxBytes =>
    if c.utf8Size ≤ maxBytes then c :: truncateChars text (maxBytes - c.utf8Size) else []

/-! ## Quotes and brackets -/

def atCharacter : Chars := " at character ".toList

def stripAtCharacter (value : Chars) : Chars :=
  match cut atCharacter value with
  | some (before, _) => before
  | none => value

/-- The loop outside quotes (`none`), or inside them after some characters or none.
What is behind a quote that is not closed is dropped. -/
def quotedLoop (quote : Char) (replacement : Chars) : Option Bool → Chars → Chars
  | none, [] => []
  | some _, [] => [quote]
  | none, c :: text =>
    if c = quote then quotedLoop quote replacement (some false) text
    else c :: quotedLoop quote replacement none text
  | some filled, c :: text =>
    if c = quote then
      (if filled then replacement else [quote, quote]) ++ quotedLoop quote replacement none text
    else quotedLoop quote replacement (some true) text

def replaceQuoted (value : Chars) (quote : Char) (replacement : Chars) : Chars :=
  if quote ∈ value then quotedLoop quote replacement none value else value

def delimitedLoop (opening closing : Char) (replacement : Chars) : Bool → Chars → Chars
  | false, [] => []
  | true, [] => [opening]
  | false, c :: text =>
    if c = opening then delimitedLoop opening closing replacement true text
    else c :: delimitedLoop opening closing replacement false text
  | true, c :: text =>
    if c = closing then replacement ++ delimitedLoop opening closing replacement false text
    else delimitedLoop opening closing replacement true text

def replaceDelimited (value : Chars) (opening closing : Char) (replacement : Chars) : Chars :=
  if opening ∈ value then delimitedLoop opening closing replacement false value else value

/-! ## Words -/

def replaceAfter (value pattern : Chars) (keep : Char → Bool) : Chars :=
  match cut pattern value with
  | none => value
  | some (before, rest) =>
    if (rest.head?.map keep).getD false then
      before ++ pattern ++ "...".toList ++ rest.dropWhile keep
    else value

def isHexDigit (c : Char) : Bool := c.isDigit || ('a' ≤ c && c ≤ 'f') || ('A' ≤ c && c ≤ 'F')

/-- Whether the character next to an address is none that could belong to it. -/
def boundary (c : Option Char) : Bool := !(c.map Char.isAlphanum).getD false

def shortRun (n : Nat) : Bool := 1 ≤ n && n ≤ 8

/-- `previous` is the character in front of the text. -/
def replaceWalAddressCopy (previous : Option Char) : Chars → Chars
  | [] => []
  | c :: text =>
    if isHexDigit c then
      let first := c :: text.takeWhile isHexDigit
      match _h : text.dropWhile isHexDigit with
      | [] => first
      | next :: rest =>
        if next = '/' ∧ shortRun first.length then
          let second := rest.takeWhile isHexDigit
          let behind := rest.dropWhile isHexDigit
          let short := shortRun second.length && boundary previous && boundary behind.head?
          let written := if short then "x/x".toList else first ++ '/' :: second
          written ++ replaceWalAddressCopy (some (second.getLastD '/')) behind
        else first ++ replaceWalAddressCopy first.getLast? (next :: rest)
    else c :: replaceWalAddressCopy (some c) text
termination_by text => text.length
decreasing_by
  · have hfirst := (List.dropWhile_sublist (l := text) isHexDigit).length_le
    have hsecond := (List.dropWhile_sublist (l := rest) isHexDigit).length_le
    rw [_h] at hfirst
    simp only [List.length_cons] at hfirst ⊢
    omega
  · have hfirst := (List.dropWhile_sublist (l := text) isHexDigit).length_le
    rw [_h] at hfirst
    simp only [List.length_cons] at hfirst ⊢
    omega
  · exact Nat.lt_succ_self _

def replaceWalAddress (value : Chars) : Chars :=
  if '/' ∈ value then replaceWalAddressCopy none value else value

def lowercase (text : Chars) : Chars := text.map Char.toLower

def wordPrefixes : List String :=
  ["transaction ", "relation ", "process ", "database ", "PID ", "signal ", "on page "]

def deniedObjects : List String :=
  ["permission denied for table ", "permission denied for schema ",
    "permission denied for sequence ", "permission denied for function ",
    "permission denied for database "]

def replaceInputSyntax (value : Chars) : Chars :=
  match cut "invalid input syntax for ".toList value with
  | none => value
  | some (before, rest) =>
    match cut ": ".toList ("invalid input syntax for ".toList ++ rest) with
    | none => value
    | some (kind, _) => before ++ kind ++ ": ...".toList

/-- The first object of the list that the text denies. -/
def replaceDenied (value : Chars) : List String → Chars
  | [] => value
  | object :: objects =>
    match cut object.toList (lowercase value) with
    | some (before, _) => value.take (before.length + object.length) ++ "...".toList
    | none => replaceDenied value objects

def replaceByteSequence (value : Chars) : Chars :=
  match cut "byte sequence for encoding".toList value with
  | none => value
  | some (before, _) => before ++ "byte sequence for encoding ...".toList

def replaceWordPatterns (value : Chars) : Chars :=
  let value := wordPrefixes.foldl (fun value pattern =>
    replaceAfter value pattern.toList Char.isDigit) value
  let value := replaceAfter value "after ".toList fun c => c.isDigit || c == '.'
  let value := replaceWalAddress value
  let value := replaceInputSyntax value
  let value := replaceDenied value deniedObjects
  replaceByteSequence value

/-! ## Patterns -/

def quotedMask : Chars := ['"', '.', '.', '.', '"']

/-- The passes behind the one over double quotes. -/
def afterQuotes (value : Chars) : Chars :=
  let value := replaceQuoted value '\'' "'...'".toList
  let value := replaceDelimited value '(' ')' "(...)".toList
  let value := replaceDelimited value '[' ']' "[...]".toList
  let value := replaceWordPatterns value
  truncateChars value maxPatternBytes

def normalizeError (message : Chars) : Chars :=
  let value := stripAtCharacter message
  let value := replaceQuoted value '"' quotedMask
  afterQuotes value

def isIdent (c : Option Char) : Bool := (c.map fun c => c.isAlphanum || c == '_').getD false

def replaceNumericLiterals (previous : Option Char) : Chars → Chars
  | [] => []
  | c :: text =>
    if c.isDigit then
      let run := c :: text.takeWhile fun c => c.isDigit || c == '.'
      let behind := text.dropWhile fun c => c.isDigit || c == '.'
      let written := if !isIdent previous && !isIdent behind.head? then "...".toList else run
      written ++ replaceNumericLiterals run.getLast? behind
    else c :: replaceNumericLiterals (some c) text
termination_by text => text.length
decreasing_by
  · have hle := (List.dropWhile_sublist (l := text) fun c => c.isDigit || c == '.').length_le
    simp only [List.length_cons]
    omega
  · exact Nat.lt_succ_self _

def normalizeSql (sql : Chars) : Chars :=
  truncateChars (replaceNumericLiterals none (normalizeError sql)) maxPatternBytes

/-- The taxonomy, in precedence order. -/
def families : List (ErrorCategory × List String) :=
  [(.lock, ["deadlock detected", "could not obtain lock", "lock timeout", "still waiting for"]),
    (.constraint, ["duplicate key", "violates foreign key", "violates not-null", "violates check",
      "violates exclusion", "null value in column"]),
    (.serialization, ["could not serialize access"]),
    (.timeout, ["statement timeout", "idle-in-transaction session timeout", "transaction timeout",
      "idle session timeout", "canceling statement due to user request"]),
    (.resource, ["out of memory", "out of shared memory", "too many connections", "disk full",
      "could not extend", "remaining connection slots"]),
    (.dataCorruption, ["invalid page", "could not read block", "data corrupted",
      "index corrupted", "unexpected zero page", "invalid checkpoint record",
      "invalid memory alloc"]),
    (.system, ["could not open file", "i/o error", "crash shutdown", "server process",
      "shutting down"]),
    (.connection, ["connection reset by peer", "unexpected eof", "broken pipe",
      "could not receive data", "could not send data", "terminating connection"]),
    (.auth, ["password authentication failed", "no pg_hba.conf entry", "role ",
      "permission denied", "ssl connection is required"]),
    (.syntaxError, ["syntax error", "does not exist", "invalid input syntax",
      "division by zero", "value too long"])]

def contains (text : Chars) (phrase : String) : Bool := (cut phrase.toList text).isSome

def isOomKill (lower : Chars) : Bool :=
  contains lower "terminated by signal" && contains lower ": killed"

def firstMatch (lower : Chars) : Option ErrorCategory :=
  if isOomKill lower then some .resource
  else (families.find? fun family => family.2.any (contains lower)).map Prod.fst

def classifyError (pattern : Chars) (severity : Severity) : ErrorCategory :=
  if severity = .panic then .dataCorruption
  else
    let category := (firstMatch (lowercase pattern)).getD .other
    if category = .other ∧ severity = .fatal then .system else category

/-! ## Values in double quotes -/

section Quotes

variable {quote : Char} {replacement text rest : Chars}

theorem quotedLoop_append (h : quote ∉ text) (rest : Chars) :
    quotedLoop quote replacement none (text ++ rest) =
      text ++ quotedLoop quote replacement none rest := by
  induction text with
  | nil => rfl
  | cons c text ih =>
    obtain ⟨hc, htext⟩ := not_or.mp (List.mem_cons.not.mp h)
    rw [List.cons_append, quotedLoop, if_neg (Ne.symm hc), ih htext]
    rfl

theorem quotedLoop_inside (h : quote ∉ text) (hne : text ≠ []) (filled : Bool) (rest : Chars) :
    quotedLoop quote replacement (some filled) (text ++ rest) =
      quotedLoop quote replacement (some true) rest := by
  induction text generalizing filled with
  | nil => exact absurd rfl hne
  | cons c text ih =>
    obtain ⟨hc, htext⟩ := not_or.mp (List.mem_cons.not.mp h)
    rw [List.cons_append, quotedLoop, if_neg (Ne.symm hc)]
    by_cases hnil : text = []
    · rw [hnil]
      rfl
    · exact ih htext hnil true

theorem replaceQuoted_eq (value : Chars) :
    replaceQuoted value quote replacement = quotedLoop quote replacement none value := by
  rw [replaceQuoted]
  by_cases h : quote ∈ value
  · rw [if_pos h]
  · have happend : quotedLoop quote replacement none (value ++ []) =
        value ++ quotedLoop quote replacement none [] := quotedLoop_append h []
    rw [List.append_nil] at happend
    rw [if_neg h, happend]
    exact (List.append_nil value).symm

theorem replaceQuoted_closed {value : Chars} (htext : quote ∉ text) (hvalue : quote ∉ value)
    (hne : value ≠ []) (rest : Chars) :
    replaceQuoted (text ++ quote :: (value ++ quote :: rest)) quote replacement =
      text ++ (replacement ++ replaceQuoted rest quote replacement) := by
  rw [replaceQuoted_eq, replaceQuoted_eq, quotedLoop_append htext, quotedLoop, if_pos rfl,
    quotedLoop_inside hvalue hne, quotedLoop, if_pos rfl]
  rfl

theorem replaceQuoted_open {value : Chars} (htext : quote ∉ text) (hvalue : quote ∉ value) :
    replaceQuoted (text ++ quote :: value) quote replacement = text ++ [quote] := by
  rw [replaceQuoted_eq, quotedLoop_append htext, quotedLoop, if_pos rfl]
  by_cases hnil : value = []
  · rw [hnil]
    rfl
  · have hinside : quotedLoop quote replacement (some false) (value ++ []) =
        quotedLoop quote replacement (some true) [] := quotedLoop_inside hvalue hnil false []
    rw [List.append_nil] at hinside
    rw [hinside]
    rfl

end Quotes

theorem quote_not_mem_atCharacter : '"' ∉ atCharacter := by decide

theorem atCharacter_ne_nil : atCharacter ≠ [] := by decide

variable {front behind value : Chars}

theorem strip_quoted (hfront : ¬ atCharacter <:+: front) (rest : Chars) :
    stripAtCharacter (front ++ '"' :: rest) = front ++ '"' :: stripAtCharacter rest := by
  rw [stripAtCharacter, cut_append_sep atCharacter_ne_nil quote_not_mem_atCharacter,
    cut_eq_none_iff.mpr hfront, stripAtCharacter]
  cases cut atCharacter rest with
  | none => rfl
  | some parts => rfl

theorem strip_front (hfront : atCharacter <:+: front) :
    ∃ before after, front = before ++ (atCharacter ++ after) ∧
      ∀ rest, stripAtCharacter (front ++ '"' :: rest) = before := by
  obtain ⟨parts, hparts⟩ := Option.isSome_iff_exists.mp (cut_isSome_iff.mpr hfront)
  refine ⟨parts.1, parts.2, cut_eq_some hparts, ?_⟩
  intro rest
  rw [stripAtCharacter, cut_append_sep atCharacter_ne_nil quote_not_mem_atCharacter, hparts]

theorem strip_isPrefix (text : Chars) : stripAtCharacter text <+: text := by
  rw [stripAtCharacter]
  cases hcut : cut atCharacter text with
  | none => exact List.prefix_rfl
  | some parts => exact ⟨_, (cut_eq_some hcut).symm⟩

theorem quoted_message (hfront : '"' ∉ front) (hvalue : '"' ∉ value) (hne : value ≠ [])
    (hpos : ¬ atCharacter <:+: front) :
    replaceQuoted (stripAtCharacter (front ++ '"' :: (value ++ '"' :: behind))) '"' quotedMask =
      if atCharacter <:+: value then front ++ ['"']
      else front ++ (quotedMask ++ replaceQuoted (stripAtCharacter behind) '"' quotedMask) := by
  rw [strip_quoted hpos]
  by_cases hinside : atCharacter <:+: value
  · obtain ⟨before, after, hsplit, hstrip⟩ := strip_front hinside
    have hbefore : '"' ∉ before := by
      intro hmem
      apply hvalue
      rw [hsplit]
      exact List.mem_append_left _ hmem
    rw [if_pos hinside, hstrip, replaceQuoted_open hfront hbefore]
  · rw [if_neg hinside, strip_quoted hinside, replaceQuoted_closed hfront hvalue hne]

/-! ## Values that show -/

/-- The phrases that the passes behind the quotes look for, besides those in front of a number. -/
def watchedPhrases : List Chars :=
  ["after .".toList, "invalid input syntax for ".toList, "permission denied for ".toList,
    "byte sequence for encoding".toList]

def byteLength (text : Chars) : Nat := (text.map Char.utf8Size).sum

/-- No pass behind the quotes looks for anything in the text. -/
structure Plain (text : Chars) : Prop where
  marks : ∀ c ∈ text, c ∉ ['\'', '(', '[', '/'] ∧ c.isDigit = false
  phrases : ∀ phrase ∈ watchedPhrases, ¬phrase <:+: lowercase text

section Plain

variable {text left right phrase pattern : Chars} {keep : Char → Bool}

theorem plain_nil : Plain [] where
  marks := List.forall_mem_nil _
  phrases := by decide

theorem Plain.quote (hleft : Plain left) (hright : Plain right) : Plain (left ++ '"' :: right) where
  marks := List.forall_mem_append.mpr
    ⟨hleft.marks, List.forall_mem_cons.mpr ⟨⟨by decide, rfl⟩, hright.marks⟩⟩
  phrases := by
    intro phrase hphrase
    have hfacts : ∀ phrase ∈ watchedPhrases, phrase ≠ [] ∧ '"' ∉ phrase := by decide
    have hlower : lowercase (left ++ '"' :: right) = lowercase left ++ '"' :: lowercase right :=
      List.map_append
    obtain ⟨hne, hquote⟩ := hfacts phrase hphrase
    rw [hlower, ← cut_eq_none_iff, cut_append_sep hne hquote,
      cut_eq_none_iff.mpr (hleft.phrases phrase hphrase),
      cut_eq_none_iff.mpr (hright.phrases phrase hphrase)]
    rfl

theorem Plain.of_append (h : Plain (left ++ right)) : Plain left where
  marks c hc := h.marks c (List.mem_append_left right hc)
  phrases phrase hphrase hinfix := by
    apply h.phrases phrase hphrase
    have hlower : lowercase (left ++ right) = lowercase left ++ lowercase right := List.map_append
    rw [hlower]
    exact hinfix.trans (List.prefix_append _ _).isInfix

theorem Plain.strip (h : Plain text) : Plain (stripAtCharacter text) := by
  obtain ⟨rest, hrest⟩ := strip_isPrefix text
  rw [← hrest] at h
  exact h.of_append

theorem Plain.not_mem (h : Plain text) {mark : Char} (hmark : mark ∈ ['\'', '(', '[', '/']) :
    mark ∉ text := fun hmem => (h.marks mark hmem).1 hmark

theorem Plain.not_isInfix (h : Plain text) (hphrase : phrase ∈ watchedPhrases) :
    ¬phrase <:+: text := by
  intro hinfix
  apply h.phrases phrase hphrase
  have hlower : ∀ phrase ∈ watchedPhrases, lowercase phrase = phrase := by decide
  rw [← hlower phrase hphrase]
  exact hinfix.map Char.toLower

theorem replaceAfter_eq
    (h : ∀ before c rest, text = before ++ (pattern ++ c :: rest) → keep c = false) :
    replaceAfter text pattern keep = text := by
  rw [replaceAfter]
  cases hcut : cut pattern text with
  | none => rfl
  | some parts =>
    obtain ⟨before, rest⟩ := parts
    cases rest with
    | nil => rfl
    | cons c rest =>
      refine if_neg ?_
      rw [List.head?_cons, Option.map_some, Option.getD_some, h before c rest (cut_eq_some hcut)]
      exact Bool.false_ne_true

theorem replaceDenied_eq {objects : List String}
    (h : ∀ object ∈ objects, cut object.toList (lowercase text) = none) :
    replaceDenied text objects = text := by
  induction objects with
  | nil => rfl
  | cons object objects ih =>
    obtain ⟨hobject, hobjects⟩ := List.forall_mem_cons.mp h
    rw [replaceDenied, hobject]
    exact ih hobjects

theorem Plain.replaceWordPatterns_eq (h : Plain text) : replaceWordPatterns text = text := by
  have hdigit : ∀ (pattern before rest : Chars) (c : Char),
      text = before ++ (pattern ++ c :: rest) → c.isDigit = false := by
    intro pattern before rest c htext
    exact (h.marks c (by rw [htext]; simp)).2
  have hprefixes : wordPrefixes.foldl (fun value pattern =>
      replaceAfter value pattern.toList Char.isDigit) text = text :=
    List.foldl_fixed' (fun pattern : String => replaceAfter_eq fun before c rest =>
      hdigit pattern.toList before rest c) wordPrefixes
  have hafter : replaceAfter text "after ".toList (fun c => c.isDigit || c == '.') = text := by
    apply replaceAfter_eq
    intro before c rest htext
    rw [hdigit _ before rest c htext, Bool.false_or, beq_eq_false_iff_ne]
    rintro rfl
    have hnot : ¬"after .".toList <:+: text := h.not_isInfix (by decide)
    exact hnot ⟨before, rest, by rw [htext, List.append_assoc]; rfl⟩
  have hwal : replaceWalAddress text = text := if_neg (h.not_mem (by decide))
  have hsyntax : replaceInputSyntax text = text := by
    rw [replaceInputSyntax, cut_eq_none_iff.mpr (h.not_isInfix (by decide))]
  have hdenied : replaceDenied text deniedObjects = text := by
    apply replaceDenied_eq
    intro object hobject
    have hstart : ∀ object ∈ deniedObjects, "permission denied for ".toList <+: object.toList := by
      decide
    rw [cut_eq_none_iff]
    intro hinfix
    exact h.phrases _ (by decide) ((hstart object hobject).isInfix.trans hinfix)
  have hbytes : replaceByteSequence text = text := by
    rw [replaceByteSequence, cut_eq_none_iff.mpr (h.not_isInfix (by decide))]
  rw [replaceWordPatterns, hprefixes, hafter, hwal, hsyntax, hdenied, hbytes]

/-- All that is left for the passes is to cut the text off. -/
theorem Plain.afterQuotes_eq (h : Plain text) :
    afterQuotes text = truncateChars text maxPatternBytes := by
  have hquoted : replaceQuoted text '\'' "'...'".toList = text := if_neg (h.not_mem (by decide))
  have hround : replaceDelimited text '(' ')' "(...)".toList = text :=
    if_neg (h.not_mem (by decide))
  have hsquare : replaceDelimited text '[' ']' "[...]".toList = text :=
    if_neg (h.not_mem (by decide))
  rw [afterQuotes, hquoted, hround, hsquare, h.replaceWordPatterns_eq]

theorem truncate_append {n : Nat} (h : byteLength text ≤ n) (rest : Chars) :
    truncateChars (text ++ rest) n = text ++ truncateChars rest (n - byteLength text) := by
  induction text generalizing n with
  | nil => rfl
  | cons c text ih =>
    have hcons : byteLength (c :: text) = c.utf8Size + byteLength text := rfl
    rw [hcons] at h ⊢
    rw [List.cons_append, truncateChars, if_pos (by omega), ih (by omega), Nat.sub_sub]
    rfl

theorem truncate_ne (hshort : byteLength text ≤ 254) (behind : Chars) :
    truncateChars (text ++ ['"']) maxPatternBytes ≠
      truncateChars (text ++ '"' :: '.' :: behind) maxPatternBytes := by
  rw [truncate_append (hshort.trans (by decide)), truncate_append (hshort.trans (by decide)),
    ne_eq, List.append_cancel_left_eq]
  obtain ⟨room, hroom⟩ : ∃ room, maxPatternBytes - byteLength text = room + 1 + 1 :=
    ⟨254 - byteLength text, by rw [maxPatternBytes]; omega⟩
  have hquote : '"'.utf8Size = 1 := rfl
  have hdot : '.'.utf8Size = 1 := rfl
  rw [hroom, truncateChars, truncateChars, truncateChars, hquote, if_pos (by omega),
    if_pos (by omega), truncateChars, hdot, if_pos (by omega)]
  exact fun heq => List.cons_ne_nil _ _ (List.cons.inj heq).2.symm

/-- An open quote and a masked value are told apart behind all passes. -/
theorem Plain.afterQuotes_ne (hleft : Plain left) (hshort : byteLength left ≤ 254)
    (hright : Plain right) :
    afterQuotes (left ++ ['"']) ≠ afterQuotes (left ++ (quotedMask ++ right)) := by
  have hdots : Plain ['.', '.', '.'] := ⟨by simp, by decide⟩
  have hmasked : Plain (left ++ (quotedMask ++ right)) := hleft.quote (hdots.quote hright)
  rw [(hleft.quote plain_nil).afterQuotes_eq, hmasked.afterQuotes_eq]
  exact truncate_ne hshort _

end Plain

/-- The message with a value in double quotes. -/
def quoting (front value behind : Chars) : Chars := front ++ '"' :: (value ++ '"' :: behind)

theorem normalizeError_quoting (hfront : '"' ∉ front) (hvalue : '"' ∉ value) (hne : value ≠ [])
    (hpos : ¬atCharacter <:+: front) :
    normalizeError (quoting front value behind) =
      if atCharacter <:+: value then afterQuotes (front ++ ['"'])
      else afterQuotes
        (front ++ (quotedMask ++ replaceQuoted (stripAtCharacter behind) '"' quotedMask)) := by
  rw [normalizeError, quoting, quoted_message hfront hvalue hne hpos]
  split_ifs
  · rfl
  · rfl

/-- Messages that differ in a quoted value fall into one group when the position that is cut off
lies in front of the value, in both values or in none of them.  Otherwise they fall into two groups
where no other pass changes the rest of the message, so no other values are grouped in every
message. -/
theorem normalizeError_quoted_iff {first second : Chars} (hfront : '"' ∉ front)
    (hfirst : '"' ∉ first) (hfirstNe : first ≠ []) (hsecond : '"' ∉ second)
    (hsecondNe : second ≠ []) :
    ((atCharacter <:+: front ∨ (atCharacter <:+: first ↔ atCharacter <:+: second)) →
        normalizeError (quoting front first behind) =
          normalizeError (quoting front second behind)) ∧
      (Plain front → byteLength front ≤ 254 → Plain behind → '"' ∉ behind →
        normalizeError (quoting front first behind) =
          normalizeError (quoting front second behind) →
        atCharacter <:+: front ∨ (atCharacter <:+: first ↔ atCharacter <:+: second)) ∧
      ((∀ front behind, '"' ∉ front →
          normalizeError (quoting front first behind) =
            normalizeError (quoting front second behind)) ↔
        (atCharacter <:+: first ↔ atCharacter <:+: second)) := by
  have henough : ∀ front behind, '"' ∉ front →
      (atCharacter <:+: front ∨ (atCharacter <:+: first ↔ atCharacter <:+: second)) →
      normalizeError (quoting front first behind) =
        normalizeError (quoting front second behind) := by
    intro front behind hfront hwhen
    by_cases hpos : atCharacter <:+: front
    · obtain ⟨before, after, -, hstrip⟩ := strip_front hpos
      rw [normalizeError, normalizeError, quoting, quoting, hstrip, hstrip]
    · have hsame := hwhen.resolve_left hpos
      rw [normalizeError_quoting hfront hfirst hfirstNe hpos,
        normalizeError_quoting hfront hsecond hsecondNe hpos]
      simp only [hsame]
  have hneeded : ∀ front behind, '"' ∉ front → Plain front → byteLength front ≤ 254 →
      Plain behind → '"' ∉ behind →
      normalizeError (quoting front first behind) =
        normalizeError (quoting front second behind) →
      atCharacter <:+: front ∨ (atCharacter <:+: first ↔ atCharacter <:+: second) := by
    intro front behind hfront hplain hshort hbehind hquote heq
    by_cases hpos : atCharacter <:+: front
    · exact Or.inl hpos
    · right
      have hkept : Plain (replaceQuoted (stripAtCharacter behind) '"' quotedMask) := by
        rw [replaceQuoted, if_neg fun hmem => hquote ((strip_isPrefix behind).subset hmem)]
        exact hbehind.strip
      rw [normalizeError_quoting hfront hfirst hfirstNe hpos,
        normalizeError_quoting hfront hsecond hsecondNe hpos] at heq
      by_cases hone : atCharacter <:+: first
      · by_cases htwo : atCharacter <:+: second
        · exact ⟨fun _ => htwo, fun _ => hone⟩
        · rw [if_pos hone, if_neg htwo] at heq
          exact absurd heq (hplain.afterQuotes_ne hshort hkept)
      · by_cases htwo : atCharacter <:+: second
        · rw [if_neg hone, if_pos htwo] at heq
          exact absurd heq.symm (hplain.afterQuotes_ne hshort hkept)
        · exact ⟨fun h => absurd h hone, fun h => absurd h htwo⟩
  refine ⟨henough front behind hfront, hneeded front behind hfront, fun hall => ?_, fun hsame => ?_⟩
  · have hnil : ¬atCharacter <:+: ([] : Chars) := by decide
    exact (hneeded [] [] List.not_mem_nil plain_nil (Nat.zero_le 254) plain_nil List.not_mem_nil
      (hall [] [] List.not_mem_nil)).resolve_left hnil
  · exact fun front behind hfront => henough front behind hfront (Or.inr hsame)

/-- Two names are grouped, and a name that looks like a position is not. -/
theorem normalizeError_quoted_iff_relation :
    normalizeError (quoting "relation ".toList "users".toList [' ']) =
        normalizeError (quoting "relation ".toList "orders".toList [' ']) ∧
      ¬∀ front behind, '"' ∉ front →
        normalizeError (quoting front "users".toList behind) =
          normalizeError (quoting front "a at character b".toList behind) := by
  refine ⟨(normalizeError_quoted_iff (by decide) (by decide) (by decide) (by decide)
    (by decide)).1 (Or.inr (by decide)), fun hall => ?_⟩
  have hiff := (@normalizeError_quoted_iff [] [] _ _ (by decide) (by decide) (by decide)
    (by decide) (by decide)).2.2.mp hall
  exact absurd (hiff.mpr (by decide)) (by decide)

/-- A quoted name that looks like a position falls into a group of its own. -/
theorem normalizeError_at_character :
    normalizeError (quoting "relation ".toList "users".toList [' ']) ≠
      normalizeError (quoting "relation ".toList "a at character b".toList [' ']) := by
  decide

end Kronika.SourceLog
