/-
The limits of a chain of control groups, as two readers find them.

One reader asks for every file by its path, the other opens every directory and asks for the files
of it.  They bound and trim what they read differently and fold it in loops of their own; on files
that both take they find the same limits, and these are the least of the chain.
-/
import Mathlib.Algebra.Order.Field.Rat
import Kronika.Library.Best
import Kronika.SourceOs.Mountinfo

namespace Kronika.SourceOs

open Library Words Utf8

/-! ## The files of a group -/

inductive CpuQuota where
  | unlimited (periodUsec : Int)
  | limited (quotaUsec periodUsec : Int)
deriving DecidableEq

inductive MemoryLimit where
  | unlimited
  | limited (value : Int)
deriving DecidableEq

def parseI64 (text : Chars) : Option Int := parseSigned 64 (String.ofList text)

def parseU32 (text : Chars) : Option Nat := parseUnsigned 32 (String.ofList text)

def unlimitedText : Chars := "max".toList

def parseCpuMaxStrict (content : Chars) : Option CpuQuota :=
  match words content with
  | [quota, period] => do
    let periodUsec ← parseI64 period
    if periodUsec ≤ 0 then none
    else if quota = unlimitedText then some (.unlimited periodUsec)
    else do
      let quotaUsec ← parseI64 quota
      if 0 < quotaUsec then some (.limited quotaUsec periodUsec) else none
  | _ => none

def parseMemoryMaxStrict (content : Chars) : Option MemoryLimit :=
  match words content with
  | [value] =>
    if value = unlimitedText then some .unlimited
    else ((parseI64 value).filter (0 ≤ ·)).map .limited
  | _ => none

/-- The first and the last of a range of processors. -/
def cpuRange (part : Chars) : Option (Nat × Nat) :=
  match cut ['-'] part with
  | some (start, last) => do
    if '-' ∈ last then none
    let start ← parseU32 start
    let last ← parseU32 last
    some (start, last)
  | none => do
    let cpu ← parseU32 part
    some (cpu, cpu)

/-- The processors of ranges that rise from the one before. -/
def countCpus : List Chars → Option Nat → Nat → Option Nat
  | [], _, count => some count
  | part :: rest, previousEnd, count =>
    if part = [] then none
    else do
      let (start, last) ← cpuRange part
      if last < start ∨ previousEnd.any (start ≤ ·) then none
      else if count + (last - start + 1) < 2 ^ 64 then
        countCpus rest (some last) (count + (last - start + 1))
      else none

def parseCpusetCount (content : Chars) : Option Int := do
  let count ← countCpus ((trim content).splitOn ',') none 0
  if count ≠ 0 ∧ count < 2 ^ 63 then some (count : Int) else none

/-- What `read_to_string` takes of a file with a bound on its bytes. -/
def readBounded (limit : Nat) (bytes : List UInt8) : Option Chars :=
  (decode (bytes.take (limit + 1))).filter fun text => (encode text).length ≤ limit

/-! ## Groups -/

/-- The directory of a group: its identity, and its regular files that can be read. -/
structure Directory where
  identity : Nat × Nat
  file : String → Option (List UInt8)

/-- The directories of a hierarchy that can be opened, by their paths. -/
abbrev Directories := Chars → Option Directory

local instance lawfulBEqChars : LawfulBEq Chars := inferInstance

def normalizeSelfCgroupPath (path : Chars) : Option Chars :=
  let path := trim path
  if path.head? ≠ some '/' ∨ ['.'] ∈ path.splitOn '/' ∨ ['.', '.'] ∈ path.splitOn '/' then none
  else
    let normalized := path.rdropWhile (· = '/')
    some (if normalized = [] then ['/'] else normalized)

/-- The paths that lead to a path, the components before it given. -/
def prefixes (current : Chars) : List Chars → List Chars
  | [] => []
  | component :: rest =>
    let next := current ++ '/' :: component
    next :: prefixes next rest

def hierarchyPaths (path : Chars) : Option (List Chars) :=
  if normalizeSelfCgroupPath path ≠ some path then none
  else if path = ['/'] then some [['/']]
  else some (['/'] :: prefixes [] ((path.dropWhile (· = '/')).splitOn '/'))

/-- The pair of the lesser ratio, and the first of two that are equal. -/
def updateEffectiveCpu (effective : Option (Int × Int)) : CpuQuota → Option (Int × Int)
  | .unlimited _ => effective
  | .limited quotaUsec periodUsec =>
    if effective.all fun current => quotaUsec * current.2 < current.1 * periodUsec then
      some (quotaUsec, periodUsec)
    else effective

/-- What is recorded of the limits of a group. -/
structure Capacity where
  cpusetCpus : Option Int
  effectiveCpuQuotaUsec : Option Int
  effectiveCpuPeriodUsec : Option Int
  effectiveMemoryMax : Option Int
deriving DecidableEq

/-! ## The direct reader -/

section Direct

/-- `MAX_PROC_FILE_BYTES` -/
def maxProcFileBytes : Nat := 4 * 1024 * 1024

variable (directories : Directories)

/-- A file by its path: trimmed, and none if it is empty. -/
def sysRead (path : Chars) (name : String) : Option Chars := do
  let directory ← directories path
  let bytes ← directory.file name
  let content ← readBounded maxProcFileBytes bytes
  if trim content = [] then none else some (trim content)

def visitCpu (found : Option (Int × Int) × Option Int) (path : Chars) :
    Option (Int × Int) × Option Int :=
  match (sysRead directories path "cpu.max").bind parseCpuMaxStrict with
  | none => found
  | some quota =>
    let unlimitedPeriod := match quota with
      | .unlimited periodUsec => some periodUsec
      | .limited _ _ => found.2
    (updateEffectiveCpu found.1 quota, unlimitedPeriod)

def observedCpuLimit (path : Chars) : Option (Int × Int) := do
  let paths ← hierarchyPaths path
  let (finite, unlimitedPeriod) := paths.foldl (visitCpu directories) (none, none)
  finite.or (unlimitedPeriod.map fun period => (-1, period))

def finiteLimit : MemoryLimit → Option Int
  | .limited value => some value
  | .unlimited => none

def effectiveMemory (path : Chars) : Option Int := do
  let paths ← hierarchyPaths path
  (paths.filterMap fun path =>
    ((sysRead directories path "memory.max").bind parseMemoryMaxStrict).bind finiteLimit).min?

/-- The limits of a selected group. -/
def collectAncestorContext (path : Chars) : Capacity :=
  let cpu := observedCpuLimit directories path
  { cpusetCpus := (sysRead directories path "cpuset.cpus.effective").bind parseCpusetCount
    effectiveCpuQuotaUsec := cpu.map Prod.fst
    effectiveCpuPeriodUsec := cpu.map Prod.snd
    effectiveMemoryMax := effectiveMemory directories path }

end Direct

/-! ## The reader of directories -/

section Primary

/-- `MAX_METRIC_BYTES` -/
def maxMetricBytes : Nat := 64 * 1024

/-- What is read of one group. -/
structure Limits where
  cpu : Option CpuQuota
  memory : Option Int
  cpuset : Option Int
  cpusetRead : Bool
deriving DecidableEq

structure Primary where
  limits : List ((Nat × Nat) × Limits)
  context : Capacity
  target : Option Chars

/-- The variables of the loop. -/
structure Reading where
  finiteCpu : Option (Int × Int)
  unlimitedPeriod : Option Int
  finiteMemory : Option Int
  cpusetCpus : Option Int
  limits : List ((Nat × Nat) × Limits)
  target : Option Chars

def scalar {α : Type} (directory : Directory) (name : String) (parse : Chars → Option α) :
    Option α := do
  let bytes ← directory.file name
  let content ← readBounded maxMetricBytes bytes
  parse content

def number (value : Chars) : Option Int := (parseI64 (trim value)).filter (0 ≤ ·)

/-- No limit is `-1`. -/
def limit (value : Chars) : Option Int :=
  if trim value = unlimitedText then some (-1) else number value

variable (directories : Directories)

def visitDirectory (selected path : Chars) (reading : Reading) (directory : Directory) :
    Reading :=
  let cpu := scalar directory "cpu.max" parseCpuMaxStrict
  let memory := scalar directory "memory.max" limit
  let cpusetRead := decide (path = selected)
  let cpuset := if cpusetRead then scalar directory "cpuset.cpus.effective" parseCpusetCount
    else none
  { finiteCpu := match cpu with
      | none => reading.finiteCpu
      | some quota => updateEffectiveCpu reading.finiteCpu quota
    unlimitedPeriod := match cpu with
      | some (.unlimited periodUsec) => some periodUsec
      | _ => reading.unlimitedPeriod
    finiteMemory := match memory.filter (0 ≤ ·) with
      | none => reading.finiteMemory
      | some memory => some (reading.finiteMemory.elim memory fun current => min current memory)
    cpusetCpus := if cpusetRead then cpuset else reading.cpusetCpus
    target := if cpusetRead then some path else reading.target
    limits := reading.limits ++ [(directory.identity, ⟨cpu, memory, cpuset, cpusetRead⟩)] }

def visitPrimary (selected : Chars) (reading : Reading) (path : Chars) : Reading :=
  match directories path with
  | none => reading
  | some directory => visitDirectory selected path reading directory

def noReading : Reading := ⟨none, none, none, none, [], none⟩

/-- `Primary::read` of a selected group. -/
def Primary.read (path : Chars) : Primary :=
  let reading := ((hierarchyPaths path).getD []).foldl (visitPrimary directories path) noReading
  let cpu := reading.finiteCpu.or (reading.unlimitedPeriod.map fun period => (-1, period))
  { limits := reading.limits
    target := reading.target
    context := {
      cpusetCpus := reading.cpusetCpus
      effectiveCpuQuotaUsec := cpu.map Prod.fst
      effectiveCpuPeriodUsec := cpu.map Prod.snd
      effectiveMemoryMax := reading.finiteMemory } }

end Primary

/-! ## Paths -/

section Paths

variable {path own current entry : Chars} {components chain paths : List Chars}

/-- A path that a selection tries: one of those that lead to a path of its own. -/
def Tried (path : Chars) : Prop := ∃ own chain, hierarchyPaths own = some chain ∧ path ∈ chain

theorem prefix_of_mem_prefixes (h : entry ∈ prefixes current components) : current <+: entry := by
  induction components generalizing current with
  | nil => exact absurd h List.not_mem_nil
  | cons component components ih =>
    rcases List.mem_cons.mp h with rfl | hrest
    · exact List.prefix_append _ _
    · exact (List.prefix_append _ _).trans (ih hrest)

theorem mem_prefixes (h : components ≠ []) :
    current ++ components.flatMap ('/' :: ·) ∈ prefixes current components := by
  induction components generalizing current with
  | nil => exact absurd rfl h
  | cons component components ih =>
    rw [List.flatMap_cons, ← List.append_assoc]
    cases components with
    | nil =>
      rw [List.flatMap_nil, List.append_nil]
      exact List.mem_cons_self
    | cons next components => exact List.mem_cons_of_mem _ (ih (List.cons_ne_nil _ _))

theorem flatMap_splitOn (text : Chars) : (text.splitOn '/').flatMap ('/' :: ·) = '/' :: text := by
  induction text with
  | nil => rfl
  | cons c text ih =>
    rw [List.splitOn_eq_splitOnP, List.splitOnP_cons_eq_if_modifyHead]
    rw [List.splitOn_eq_splitOnP] at ih
    by_cases hc : (c == '/') = true
    · rw [if_pos hc, List.flatMap_cons, ih, beq_iff_eq.mp hc]
      rfl
    · rw [if_neg hc]
      cases hsplit : text.splitOnP (· == '/') with
      | nil => exact absurd hsplit (List.splitOnP_ne_nil _ _)
      | cons piece pieces =>
        rw [hsplit] at ih
        show '/' :: c :: (piece ++ pieces.flatMap ('/' :: ·)) = _
        have htext : piece ++ pieces.flatMap ('/' :: ·) = text := (List.cons.inj ih).2
        rw [htext]

theorem normalize_of_hierarchyPaths (h : hierarchyPaths path = some chain) :
    normalizeSelfCgroupPath path = some path := by
  rw [hierarchyPaths] at h
  by_contra hne
  rw [if_pos hne] at h
  cases h

theorem ends_of_hierarchyPaths (h : hierarchyPaths path = some chain) (hroot : path ≠ ['/']) :
    path.head? = some '/' ∧ ∀ c, path.getLast? = some c → c ≠ '/' := by
  have hnormalize := normalize_of_hierarchyPaths h
  rw [normalizeSelfCgroupPath] at hnormalize
  dsimp only at hnormalize
  split_ifs at hnormalize with hrefused hempty
  · exact absurd (Option.some.inj hnormalize).symm hroot
  · have hpath := Option.some.inj hnormalize
    have hslash := not_not.mp (not_or.mp hrefused).1
    obtain ⟨rest, hrest⟩ := List.rdropWhile_prefix (fun c => decide (c = '/')) (trim path)
    have hlast := List.rdropWhile_last_not (fun c => decide (c = '/')) (trim path) hempty
    rw [hpath] at hrest
    have hne : path ≠ [] := hpath ▸ hempty
    refine ⟨?_, fun c hc heq => hlast ?_⟩
    · rw [← hrest, List.head?_append_of_ne_nil _ hne] at hslash
      exact hslash
    · have hget : ((trim path).rdropWhile fun c => decide (c = '/')).getLast? = some c := by
        rw [hpath]
        exact hc
      rw [List.getLast?_eq_some_getLast hempty] at hget
      rw [Option.some.inj hget]
      exact decide_eq_true heq

theorem dropWhile_slash (h : ∀ c, path.getLast? = some c → c ≠ '/') (hne : path ≠ []) :
    ∃ c rest, path.dropWhile (fun c => decide (c = '/')) = c :: rest ∧ c ≠ '/' := by
  cases hdrop : path.dropWhile (fun c => decide (c = '/')) with
  | nil =>
    have hall := List.dropWhile_eq_nil_iff.mp hdrop
    have hlast := hall _ (List.getLast_mem hne)
    exact absurd (of_decide_eq_true hlast) (h _ (List.getLast?_eq_some_getLast hne))
  | cons c rest =>
    have hhead := List.head?_dropWhile_not (fun c => decide (c = '/')) path
    rw [hdrop] at hhead
    exact ⟨c, rest, rfl, by simpa using hhead⟩

theorem Tried.second (h : Tried path) : ∀ rest, path ≠ '/' :: '/' :: rest := by
  obtain ⟨own, chain, hchain, hmem⟩ := h
  have hpaths := hchain
  intro rest hpath
  rw [hierarchyPaths, if_neg (not_not.mpr (normalize_of_hierarchyPaths hchain))] at hpaths
  by_cases hroot : own = ['/']
  · rw [if_pos hroot] at hpaths
    rw [← Option.some.inj hpaths, List.mem_singleton] at hmem
    rw [hmem] at hpath
    cases hpath
  · rw [if_neg hroot] at hpaths
    rw [← Option.some.inj hpaths] at hmem
    obtain ⟨hhead, hlast⟩ := ends_of_hierarchyPaths hchain hroot
    have hne : own ≠ [] := fun hnil => by
      rw [hnil] at hhead
      cases hhead
    obtain ⟨c, text, hdrop, hc⟩ := dropWhile_slash hlast hne
    rcases List.mem_cons.mp hmem with heq | hprefix
    · rw [heq] at hpath
      cases hpath
    · rw [hdrop, List.splitOn_eq_splitOnP, List.splitOnP_cons_eq_if_modifyHead,
        if_neg (by rw [beq_iff_eq]; exact hc)] at hprefix
      cases hsplit : text.splitOnP (· == '/') with
      | nil => exact absurd hsplit (List.splitOnP_ne_nil _ _)
      | cons piece pieces =>
        rw [hsplit] at hprefix
        have hbegins : '/' :: c :: piece <+: path := by
          rcases List.mem_cons.mp hprefix with heq | hlater
          · rw [heq]
            exact List.prefix_rfl
          · exact prefix_of_mem_prefixes hlater
        rw [hpath] at hbegins
        obtain ⟨more, hmore⟩ := hbegins
        exact hc (List.cons.inj (List.cons.inj hmore).2).1

theorem mem_chain (htried : Tried path) (h : hierarchyPaths path = some chain) : path ∈ chain := by
  have hchain := h
  rw [hierarchyPaths, if_neg (not_not.mpr (normalize_of_hierarchyPaths h))] at hchain
  by_cases hroot : path = ['/']
  · rw [if_pos hroot] at hchain
    rw [← Option.some.inj hchain, hroot]
    exact List.mem_singleton.mpr rfl
  · rw [if_neg hroot] at hchain
    obtain ⟨hhead, hlast⟩ := ends_of_hierarchyPaths h hroot
    obtain ⟨rest, rfl⟩ : ∃ rest, path = '/' :: rest := List.head?_eq_some_iff.mp hhead
    have hdrop : ('/' :: rest).dropWhile (fun c => decide (c = '/')) = rest := by
      rw [List.dropWhile_cons, if_pos (decide_eq_true rfl)]
      cases rest with
      | nil => rfl
      | cons c rest =>
        have hc : c ≠ '/' := fun heq => htried.second rest (by rw [heq])
        rw [List.dropWhile_cons, if_neg (by rw [decide_eq_true_eq]; exact hc)]
    rw [hdrop] at hchain
    rw [← Option.some.inj hchain]
    refine List.mem_cons_of_mem _ ?_
    have hlastPath : [] ++ (rest.splitOn '/').flatMap ('/' :: ·) ∈ prefixes [] (rest.splitOn '/') :=
      mem_prefixes (List.splitOn_ne_nil '/' rest)
    rw [flatMap_splitOn] at hlastPath
    exact hlastPath

end Paths

/-! ## Contents of files -/

section Contents

variable {α : Type} {bytes : List UInt8} {text value : Chars} {directories : Directories}
  {directory : Directory} {path : Chars} {name : String} {parse : Chars → Option α}

theorem readBounded_of_le {limit : Nat} (h : bytes.length ≤ limit) :
    readBounded limit bytes = decode bytes := by
  rw [readBounded, List.take_of_length_le (Nat.le_succ_of_le h)]
  cases hdecode : decode bytes with
  | none => rfl
  | some text =>
    rw [Option.filter_some, encode_of_decode hdecode, decide_eq_true h, if_pos rfl]

theorem digits_of_parseDigits {digits : Chars} {start n : Nat}
    (h : parseDigits digits start = some n) : ∀ c ∈ digits, '0' ≤ c ∧ c ≤ '9' := by
  induction digits generalizing start with
  | nil =>
    intro c hc
    exact absurd hc List.not_mem_nil
  | cons d digits ih =>
    rw [parseDigits] at h
    by_cases hd : '0' ≤ d ∧ d ≤ '9'
    · rw [if_pos hd] at h
      exact List.forall_mem_cons.mpr ⟨hd, ih h⟩
    · rw [if_neg hd] at h
      cases h

theorem word_of_parseDigits {digits : Chars} {n : Nat} (hne : digits ≠ [])
    (h : parseDigits digits 0 = some n) : Word digits :=
  ⟨hne, fun c hc => isWhitespace_digit (digits_of_parseDigits h c hc).1
    (digits_of_parseDigits h c hc).2⟩

theorem word_cons {c : Char} (hc : isWhitespace c = false) (h : Word text) : Word (c :: text) :=
  ⟨List.cons_ne_nil c text, List.forall_mem_cons.mpr ⟨hc, h.plain⟩⟩

theorem parseI64_eq_some {number : Int} (h : parseI64 text = some number) :
    Word text ∧ number < 2 ^ 63 := by
  rw [parseI64, parseSigned, String.toList_ofList] at h
  split at h
  · next digits =>
    split_ifs at h with hnil
    obtain ⟨n, hn, rfl⟩ := Option.map_eq_some_iff.mp h
    obtain ⟨hparse, _⟩ := Option.filter_eq_some_iff.mp hn
    refine ⟨word_cons (by decide) (word_of_parseDigits hnil hparse), ?_⟩
    omega
  · next digits =>
    split_ifs at h with hnil
    obtain ⟨n, hn, rfl⟩ := Option.map_eq_some_iff.mp h
    obtain ⟨hparse, hlt⟩ := Option.filter_eq_some_iff.mp hn
    refine ⟨word_cons (by decide) (word_of_parseDigits hnil hparse), ?_⟩
    have hbound := of_decide_eq_true hlt
    show (n : Int) < 2 ^ 63
    omega
  · split_ifs at h with hnil
    obtain ⟨n, hn, rfl⟩ := Option.map_eq_some_iff.mp h
    obtain ⟨hparse, hlt⟩ := Option.filter_eq_some_iff.mp hn
    refine ⟨word_of_parseDigits hnil hparse, ?_⟩
    have hbound := of_decide_eq_true hlt
    show (n : Int) < 2 ^ 63
    omega

/-! ### Parsers and white space at the ends -/

/-- A parser that sees no white space at the ends, and nothing in an empty text. -/
structure Trims (parse : Chars → Option α) : Prop where
  trim : ∀ text, parse (trim text) = parse text
  nil : parse [] = none

theorem trims_cpuMax : Trims parseCpuMaxStrict where
  trim text := by rw [parseCpuMaxStrict, parseCpuMaxStrict, words_trim]
  nil := rfl

theorem trims_memoryMax : Trims parseMemoryMaxStrict where
  trim text := by rw [parseMemoryMaxStrict, parseMemoryMaxStrict, words_trim]
  nil := rfl

theorem trims_cpuset : Trims parseCpusetCount where
  trim text := by rw [parseCpusetCount, parseCpusetCount, trim_trim]
  nil := rfl

theorem limit_eq (value : Chars) :
    (limit value).filter (0 ≤ ·) = (parseMemoryMaxStrict value).bind finiteLimit := by
  have htrimmed := trimmed_trim value
  by_cases hword : Word (trim value)
  · have hwords : words value = [trim value] := by
      rw [← words_trim]
      exact words_word hword
    rw [limit, number, parseMemoryMaxStrict, hwords]
    dsimp only
    by_cases hmax : trim value = unlimitedText
    · rw [if_pos hmax, if_pos hmax]
      rfl
    · rw [if_neg hmax, if_neg hmax]
      cases parseI64 (trim value) with
      | none => rfl
      | some number =>
        by_cases hnonneg : 0 ≤ number
        · simp [Option.filter_some, hnonneg, finiteLimit]
        · simp [Option.filter_some, hnonneg]
  · have hmax : trim value ≠ unlimitedText := by
      intro heq
      rw [heq] at hword
      exact hword (by decide)
    have hnumber : number value = none := by
      rw [number]
      cases hparse : parseI64 (trim value) with
      | none => rfl
      | some found => exact absurd (parseI64_eq_some hparse).1 hword
    have hwords : parseMemoryMaxStrict value = none := by
      rw [parseMemoryMaxStrict]
      have hnot : ∀ word, words value ≠ [word] := by
        intro word hwords
        rw [← words_trim] at hwords
        exact hword ((words_eq_singleton htrimmed).mp hwords).2
      generalize words value = found at hnot
      rcases found with _ | ⟨first, _ | ⟨second, rest⟩⟩
      · rfl
      · exact absurd rfl (hnot first)
      · rfl
    rw [limit, if_neg hmax, hnumber, hwords]
    rfl

/-! ### What both readers read -/

def fileText (directories : Directories) (path : Chars) (name : String) : Option Chars :=
  ((directories path).bind fun directory => directory.file name).bind
    (readBounded maxProcFileBytes)

def limitFiles : List String := ["cpu.max", "memory.max", "cpuset.cpus.effective"]

def Small (directories : Directories) (path : Chars) : Prop :=
  ∀ directory, directories path = some directory → ∀ name ∈ limitFiles, ∀ bytes,
    directory.file name = some bytes → bytes.length ≤ maxMetricBytes

theorem sysRead_bind (hparse : Trims parse) (directories : Directories) (path : Chars)
    (name : String) :
    (sysRead directories path name).bind parse = (fileText directories path name).bind parse := by
  rw [sysRead, fileText]
  cases hdirectory : directories path with
  | none => rfl
  | some directory =>
    simp only [Option.bind_eq_bind, Option.bind_some]
    cases hfile : directory.file name with
    | none => rfl
    | some bytes =>
      rw [Option.bind_some, Option.bind_some]
      cases readBounded maxProcFileBytes bytes with
      | none => rfl
      | some text =>
        rw [Option.bind_some, Option.bind_some, ← hparse.trim]
        split_ifs with hempty
        · rw [hempty, hparse.nil]
          rfl
        · rfl

theorem scalar_eq (h : Small directories path) (hdirectory : directories path = some directory)
    (hname : name ∈ limitFiles) (parse : Chars → Option α) :
    scalar directory name parse = (fileText directories path name).bind parse := by
  rw [scalar, fileText, hdirectory, Option.bind_some]
  cases hfile : directory.file name with
  | none => rfl
  | some bytes =>
    have hlength := h directory hdirectory name hname bytes hfile
    have hle : maxMetricBytes ≤ maxProcFileBytes := by decide
    simp only [Option.bind_eq_bind, Option.bind_some, readBounded_of_le hlength,
      readBounded_of_le (hlength.trans hle)]

end Contents

/-! ## The loops -/

section Loops

variable {directories : Directories} {path selected : Chars} {paths : List Chars}
  {reading : Reading}

def quotaOf (directories : Directories) (path : Chars) : Option CpuQuota :=
  (fileText directories path "cpu.max").bind parseCpuMaxStrict

def memoryOf (directories : Directories) (path : Chars) : Option MemoryLimit :=
  (fileText directories path "memory.max").bind parseMemoryMaxStrict

def cpusetOf (directories : Directories) (path : Chars) : Option Int :=
  (fileText directories path "cpuset.cpus.effective").bind parseCpusetCount

def unlimitedAfter (period : Option Int) : CpuQuota → Option Int
  | .unlimited periodUsec => some periodUsec
  | .limited _ _ => period

def cpuStep (found : Option (Int × Int) × Option Int) (quota : CpuQuota) :
    Option (Int × Int) × Option Int :=
  (updateEffectiveCpu found.1 quota, unlimitedAfter found.2 quota)

theorem visitCpu_eq (found : Option (Int × Int) × Option Int) (path : Chars) :
    visitCpu directories found path = (quotaOf directories path).elim found (cpuStep found) := by
  rw [visitCpu, sysRead_bind trims_cpuMax, ← quotaOf]
  cases quotaOf directories path with
  | none => rfl
  | some quota =>
    cases quota with
    | unlimited periodUsec => rfl
    | limited quotaUsec periodUsec => rfl

theorem foldl_elim {α β γ : Type*} {f : α → Option β} {g : γ → β → γ} (items : List α) (init : γ) :
    items.foldl (fun state item => (f item).elim state (g state)) init =
      (items.filterMap f).foldl g init := by
  induction items generalizing init with
  | nil => rfl
  | cons item items ih =>
    rw [List.foldl_cons, ih, List.filterMap_cons]
    cases f item with
    | none => rfl
    | some value => rfl

theorem foldl_visitCpu (paths : List Chars) (init : Option (Int × Int) × Option Int) :
    paths.foldl (visitCpu directories) init =
      (paths.filterMap (quotaOf directories)).foldl cpuStep init := by
  rw [← foldl_elim]
  congr 1
  funext found path
  exact visitCpu_eq found path

theorem visitPrimary_cpu (selected : Chars) (reading : Reading) (h : Small directories path) :
    ((visitPrimary directories selected reading path).finiteCpu,
      (visitPrimary directories selected reading path).unlimitedPeriod) =
      (quotaOf directories path).elim (reading.finiteCpu, reading.unlimitedPeriod)
        (cpuStep (reading.finiteCpu, reading.unlimitedPeriod)) := by
  rw [visitPrimary]
  cases hdirectory : directories path with
  | none =>
    rw [quotaOf, fileText, hdirectory]
    rfl
  | some directory =>
    rw [quotaOf, ← scalar_eq h hdirectory (by decide) parseCpuMaxStrict]
    dsimp only [visitDirectory]
    cases scalar directory "cpu.max" parseCpuMaxStrict with
    | none => rfl
    | some quota =>
      cases quota with
      | unlimited periodUsec => rfl
      | limited quotaUsec periodUsec => rfl

def memoryStep (found : Option Int) (value : Int) : Option Int :=
  some (found.elim value fun current => min current value)

theorem visitPrimary_memory (selected : Chars) (reading : Reading) (h : Small directories path) :
    (visitPrimary directories selected reading path).finiteMemory =
      ((memoryOf directories path).bind finiteLimit).elim reading.finiteMemory
        (memoryStep reading.finiteMemory) := by
  rw [visitPrimary]
  cases hdirectory : directories path with
  | none =>
    rw [memoryOf, fileText, hdirectory]
    rfl
  | some directory =>
    have hlimit : (scalar directory "memory.max" limit).filter (0 ≤ ·) =
        (memoryOf directories path).bind finiteLimit := by
      rw [scalar_eq h hdirectory (by decide), memoryOf]
      cases fileText directories path "memory.max" with
      | none => rfl
      | some text =>
        exact limit_eq text
    rw [← hlimit]
    dsimp only [visitDirectory]
    cases (scalar directory "memory.max" limit).filter (0 ≤ ·) with
    | none => rfl
    | some value => rfl

theorem visitPrimary_cpuset (h : Small directories path)
    (hreading : reading.cpusetCpus = none ∨ reading.cpusetCpus = cpusetOf directories selected) :
    (visitPrimary directories selected reading path).cpusetCpus =
      if path = selected then cpusetOf directories selected else reading.cpusetCpus := by
  rw [visitPrimary]
  by_cases hselected : path = selected
  · subst hselected
    rw [if_pos rfl]
    cases hdirectory : directories path with
    | none =>
      have hnone : cpusetOf directories path = none := by
        rw [cpusetOf, fileText, hdirectory]
        rfl
      rw [hnone] at hreading ⊢
      exact hreading.elim id id
    | some directory =>
      rw [cpusetOf, ← scalar_eq h hdirectory (by decide) parseCpusetCount]
      dsimp only [visitDirectory]
      rw [decide_eq_true rfl, if_pos rfl, if_pos rfl]
  · rw [if_neg hselected]
    cases directories path with
    | none => rfl
    | some directory =>
      dsimp only [visitDirectory]
      rw [decide_eq_false hselected, if_neg Bool.false_ne_true]

theorem foldl_visitPrimary (reading : Reading) (h : ∀ path ∈ paths, Small directories path)
    (hreading : reading.cpusetCpus = none ∨ reading.cpusetCpus = cpusetOf directories selected) :
    let last := paths.foldl (visitPrimary directories selected) reading
    (last.finiteCpu, last.unlimitedPeriod) =
        (paths.filterMap (quotaOf directories)).foldl cpuStep
          (reading.finiteCpu, reading.unlimitedPeriod) ∧
      last.finiteMemory =
        (paths.filterMap fun path => (memoryOf directories path).bind finiteLimit).foldl
          memoryStep reading.finiteMemory ∧
      last.cpusetCpus =
        if selected ∈ paths then cpusetOf directories selected else reading.cpusetCpus := by
  induction paths generalizing reading with
  | nil => exact ⟨rfl, rfl, rfl⟩
  | cons path paths ih =>
    obtain ⟨hpath, hpaths⟩ := List.forall_mem_cons.mp h
    have hcpu := visitPrimary_cpu selected reading hpath
    have hmemory := visitPrimary_memory selected reading hpath
    have hcpuset := visitPrimary_cpuset hpath hreading
    have hnext : (visitPrimary directories selected reading path).cpusetCpus = none ∨
        (visitPrimary directories selected reading path).cpusetCpus =
          cpusetOf directories selected := by
      rw [hcpuset]
      split_ifs
      · exact Or.inr rfl
      · exact hreading
    obtain ⟨hcpuRest, hmemoryRest, hcpusetRest⟩ := ih _ hpaths hnext
    rw [List.foldl_cons]
    refine ⟨?_, ?_, ?_⟩
    · rw [hcpuRest, hcpu, List.filterMap_cons]
      cases quotaOf directories path with
      | none => rfl
      | some quota => rfl
    · rw [hmemoryRest, hmemory, List.filterMap_cons]
      cases (memoryOf directories path).bind finiteLimit with
      | none => rfl
      | some value => rfl
    · rw [hcpusetRest, hcpuset]
      by_cases hselected : path = selected
      · rw [if_pos hselected, if_pos (List.mem_cons.mpr (Or.inl hselected.symm)), ite_self]
      · rw [if_neg hselected]
        have hmem : selected ∈ path :: paths ↔ selected ∈ paths := by
          rw [List.mem_cons]
          exact or_iff_right (Ne.symm hselected)
        rw [if_congr hmem rfl rfl]

end Loops

/-! ## The limits of a chain -/

section Chain

variable {directories : Directories} {path : Chars} {chain : List Chars} {quotas : List CpuQuota}
  {limits : List MemoryLimit}

def quotaRatio (pair : Int × Int) : ℚ := (pair.1 : ℚ) / pair.2

/-- The least finite quota by its ratio.  Without a finite quota there is no limit, and the period
is the deepest. -/
structure IsCpuLimit (quotas : List CpuQuota) (limit : Option (Int × Int)) : Prop where
  finite : ∀ quota period, CpuQuota.limited quota period ∈ quotas → ∃ found, limit = some found ∧
    CpuQuota.limited found.1 found.2 ∈ quotas ∧ quotaRatio found ≤ quotaRatio (quota, period)
  unlimited : (∀ quota period, CpuQuota.limited quota period ∉ quotas) → limit =
    quotas.getLast?.bind fun quota => (unlimitedAfter none quota).map fun period => (-1, period)

/-- The least finite limit. -/
structure IsMemoryLimit (limits : List MemoryLimit) (limit : Option Int) : Prop where
  none_iff : limit = none ↔ ∀ value, MemoryLimit.limited value ∉ limits
  least : ∀ found, limit = some found → MemoryLimit.limited found ∈ limits ∧
    ∀ value, MemoryLimit.limited value ∈ limits → found ≤ value

def finitePair : CpuQuota → Option (Int × Int)
  | .limited quota period => some (quota, period)
  | .unlimited _ => none

theorem mem_filterMap_finitePair {pair : Int × Int} :
    pair ∈ quotas.filterMap finitePair ↔ CpuQuota.limited pair.1 pair.2 ∈ quotas := by
  rw [List.mem_filterMap]
  constructor
  · intro h
    obtain ⟨quota, hquota, hpair⟩ := h
    cases quota with
    | unlimited periodUsec => cases hpair
    | limited quotaUsec periodUsec =>
      rw [← Option.some.inj hpair]
      exact hquota
  · intro h
    exact ⟨_, h, rfl⟩

variable {quota period : Int}

theorem parseCpuMaxStrict_pos {content : Chars}
    (h : parseCpuMaxStrict content = some (.limited quota period)) :
    (0 < quota ∧ quota < 2 ^ 63) ∧ 0 < period ∧ period < 2 ^ 63 := by
  rw [parseCpuMaxStrict] at h
  split at h
  · next quotaText periodText _ =>
    obtain ⟨periodUsec, hperiod, h⟩ := Option.bind_eq_some_iff.mp h
    split_ifs at h with hnonpos hmax
    · cases h
    · obtain ⟨quotaUsec, hquota, h⟩ := Option.bind_eq_some_iff.mp h
      split_ifs at h with hpos
      cases h
      exact ⟨⟨hpos, (parseI64_eq_some hquota).2⟩, by omega, (parseI64_eq_some hperiod).2⟩
  · cases h

theorem cross_lt_iff {left right : Int × Int} (hleft : 0 < left.2) (hright : 0 < right.2) :
    left.1 * right.2 < right.1 * left.2 ↔ quotaRatio left < quotaRatio right := by
  rw [quotaRatio, quotaRatio, div_lt_div_iff₀ (by exact_mod_cast hleft) (by exact_mod_cast hright)]
  exact_mod_cast Iff.rfl

theorem updateEffectiveCpu_eq {effective : Option (Int × Int)}
    (heffective : ∀ found, effective = some found → 0 < found.2) (hpos : 0 < period) :
    updateEffectiveCpu effective (.limited quota period) =
      Best.better (fun pair => -quotaRatio pair) effective (quota, period) := by
  rw [updateEffectiveCpu, Best.better]
  cases effective with
  | none => rfl
  | some found =>
    have hcross : quota * found.2 < found.1 * period ↔
        -quotaRatio found < -quotaRatio (quota, period) := by
      rw [neg_lt_neg_iff]
      exact @cross_lt_iff (quota, period) found hpos (heffective found rfl)
    rw [Option.all_some, Option.all_some, decide_eq_decide.mpr hcross]

theorem foldl_cpuStep_fst {effective : Option (Int × Int)} {period : Option Int}
    (hpos : ∀ quota period, CpuQuota.limited quota period ∈ quotas → 0 < period)
    (heffective : ∀ found, effective = some found → 0 < found.2) :
    (quotas.foldl cpuStep (effective, period)).1 =
      (quotas.filterMap finitePair).foldl (Best.better fun pair => -quotaRatio pair) effective := by
  induction quotas generalizing effective period with
  | nil => rfl
  | cons quota quotas ih =>
    have hrest : ∀ other period, CpuQuota.limited other period ∈ quotas → 0 < period :=
      fun other period hmem => hpos other period (List.mem_cons_of_mem quota hmem)
    rw [List.foldl_cons, cpuStep]
    cases quota with
    | unlimited periodUsec => exact ih hrest heffective
    | limited quotaUsec periodUsec =>
      have hperiod := hpos quotaUsec periodUsec List.mem_cons_self
      rw [ih hrest]
      · rw [updateEffectiveCpu_eq heffective hperiod]
        rfl
      · intro found hfound
        dsimp only [updateEffectiveCpu] at hfound
        split_ifs at hfound
        · rw [← Option.some.inj hfound]
          exact hperiod
        · exact heffective found hfound

theorem foldl_cpuStep_snd (found : Option (Int × Int) × Option Int) :
    (quotas.foldl cpuStep found).2 = quotas.foldl unlimitedAfter found.2 := by
  induction quotas generalizing found with
  | nil => rfl
  | cons quota quotas ih => rw [List.foldl_cons, ih, List.foldl_cons, cpuStep]

theorem foldl_unlimitedAfter (h : ∀ quota period, CpuQuota.limited quota period ∉ quotas) :
    quotas.foldl unlimitedAfter none = quotas.getLast?.bind (unlimitedAfter none) := by
  cases quotas using List.reverseRecOn with
  | nil => rfl
  | append_singleton quotas quota =>
    rw [List.foldl_append, List.getLast?_concat]
    cases quota with
    | unlimited periodUsec => rfl
    | limited quotaUsec periodUsec =>
      exact absurd (List.mem_append_right _ List.mem_cons_self) (h quotaUsec periodUsec)

theorem foldl_cpuStep (hpos : ∀ quota period, CpuQuota.limited quota period ∈ quotas → 0 < period) :
    IsCpuLimit quotas ((quotas.foldl cpuStep (none, none)).1.or
      ((quotas.foldl cpuStep (none, none)).2.map fun period => (-1, period))) := by
  have hnone : ∀ found : Int × Int, none = some found → 0 < found.2 := by
    intro found hfound
    cases hfound
  have hstart : Best.IsBest (fun pair => -quotaRatio pair) [] none := Best.isBest_nil
  have hbest := hstart.foldl (quotas.filterMap finitePair)
  rw [← foldl_cpuStep_fst hpos hnone] at hbest
  constructor
  · intro quota period hmem
    obtain ⟨found, hfound, hle⟩ := hbest.le (quota, period) (mem_filterMap_finitePair.mpr hmem)
    refine ⟨found, ?_, mem_filterMap_finitePair.mp (hbest.mem found hfound), neg_le_neg_iff.mp hle⟩
    rw [hfound, Option.some_or]
  · intro hno
    have hempty : quotas.filterMap finitePair = [] := by
      rw [List.eq_nil_iff_forall_not_mem]
      intro pair hpair
      exact hno pair.1 pair.2 (mem_filterMap_finitePair.mp hpair)
    rw [hbest.eq_none_iff.mpr hempty, foldl_cpuStep_snd, foldl_unlimitedAfter hno]
    exact Option.map_bind

theorem foldl_memoryStep (values : List Int) : values.foldl memoryStep none = values.min? := by
  cases values with
  | nil => rfl
  | cons value values =>
    show values.foldl memoryStep (some value) = _
    induction values generalizing value with
    | nil => rfl
    | cons next values ih => exact ih (min value next)

theorem min?_isMemoryLimit (limits : List MemoryLimit) :
    IsMemoryLimit limits (limits.filterMap finiteLimit).min? := by
  have hmem : ∀ value, value ∈ limits.filterMap finiteLimit ↔
      MemoryLimit.limited value ∈ limits := by
    intro value
    rw [List.mem_filterMap]
    constructor
    · intro h
      obtain ⟨limit, hlimit, hvalue⟩ := h
      cases limit with
      | unlimited => cases hvalue
      | limited found =>
        rw [← Option.some.inj hvalue]
        exact hlimit
    · intro h
      exact ⟨_, h, rfl⟩
  constructor
  · rw [List.min?_eq_none_iff, List.eq_nil_iff_forall_not_mem]
    exact forall_congr' fun value => not_congr (hmem value)
  · intro found hfound
    obtain ⟨hin, hle⟩ := List.min?_eq_some_iff.mp hfound
    exact ⟨(hmem found).mp hin, fun value hvalue => hle value ((hmem value).mpr hvalue)⟩

/-! ## Both readers -/

theorem quotaOf_pos
    (h : CpuQuota.limited quota period ∈ chain.filterMap (quotaOf directories)) : 0 < period := by
  obtain ⟨group, _, hquota⟩ := List.mem_filterMap.mp h
  obtain ⟨text, _, hparse⟩ := Option.bind_eq_some_iff.mp hquota
  exact (parseCpuMaxStrict_pos hparse).2.1

def chainCpu (directories : Directories) (chain : List Chars) : Option (Int × Int) :=
  let last := (chain.filterMap (quotaOf directories)).foldl cpuStep (none, none)
  last.1.or (last.2.map fun period => (-1, period))

def chainMemory (directories : Directories) (chain : List Chars) : Option Int :=
  ((chain.filterMap (memoryOf directories)).filterMap finiteLimit).min?

theorem collectAncestorContext_eq (hchain : hierarchyPaths path = some chain) :
    collectAncestorContext directories path =
      ⟨cpusetOf directories path, (chainCpu directories chain).map Prod.fst,
        (chainCpu directories chain).map Prod.snd, chainMemory directories chain⟩ := by
  have hcpu : observedCpuLimit directories path = chainCpu directories chain := by
    rw [observedCpuLimit, hchain]
    show (chain.foldl (visitCpu directories) (none, none)).1.or _ = _
    rw [foldl_visitCpu]
    rfl
  have hmemory : effectiveMemory directories path = chainMemory directories chain := by
    rw [effectiveMemory, hchain, chainMemory, List.filterMap_filterMap]
    refine congrArg List.min? (List.filterMap_congr fun group _ => ?_)
    rw [sysRead_bind trims_memoryMax]
    rfl
  rw [collectAncestorContext, hcpu, hmemory, sysRead_bind trims_cpuset]
  rfl

theorem Primary.read_eq (htried : Tried path) (hchain : hierarchyPaths path = some chain)
    (hsmall : ∀ group ∈ chain, Small directories group) :
    (Primary.read directories path).context =
      ⟨cpusetOf directories path, (chainCpu directories chain).map Prod.fst,
        (chainCpu directories chain).map Prod.snd, chainMemory directories chain⟩ := by
  obtain ⟨hcpu, hmemory, hcpuset⟩ := foldl_visitPrimary noReading hsmall (Or.inl rfl)
  rw [if_pos (mem_chain htried hchain)] at hcpuset
  have hvalues := hmemory.trans (foldl_memoryStep _)
  rw [← List.filterMap_filterMap] at hvalues
  rw [Primary.read, hchain]
  dsimp only [Option.getD_some]
  have hfinite := congrArg Prod.fst hcpu
  have hperiod := congrArg Prod.snd hcpu
  dsimp only at hfinite hperiod
  rw [hvalues, hcpuset, hfinite, hperiod]
  rfl

/-- The direct reader has the least finite limits of a chain, and the reader of directories has the
same where it takes all files. -/
theorem limits_agree (htried : Tried path) (hchain : hierarchyPaths path = some chain) :
    (∃ limit, (collectAncestorContext directories path).effectiveCpuQuotaUsec =
        limit.map Prod.fst ∧
      (collectAncestorContext directories path).effectiveCpuPeriodUsec = limit.map Prod.snd ∧
      IsCpuLimit (chain.filterMap (quotaOf directories)) limit) ∧
    IsMemoryLimit (chain.filterMap (memoryOf directories))
      (collectAncestorContext directories path).effectiveMemoryMax ∧
    (collectAncestorContext directories path).cpusetCpus = cpusetOf directories path ∧
    ((∀ group ∈ chain, Small directories group) →
      (Primary.read directories path).context = collectAncestorContext directories path) := by
  rw [collectAncestorContext_eq hchain]
  exact ⟨⟨chainCpu directories chain, rfl, rfl, foldl_cpuStep fun _ _ hmem => quotaOf_pos hmem⟩,
    min?_isMemoryLimit _, rfl, Primary.read_eq htried hchain⟩

/-- A group with a quota of its own below one without. -/
def sampleDirectories : Directories := fun path =>
  if path = "/".toList then
    some ⟨(1, 1), fun name => if name = "cpu.max" then some (encode "max 100000".toList) else none⟩
  else if path = "/db".toList then
    some ⟨(1, 2), fun name =>
      if name = "cpu.max" then some (encode "50000 100000".toList)
      else if name = "memory.max" then some (encode "1048576".toList)
      else none⟩
  else none

theorem sampleDirectories_small : ∀ group ∈ ["/".toList, "/db".toList],
    Small sampleDirectories group := by
  intro group hgroup directory hdirectory name hname bytes hbytes
  rcases List.mem_pair.mp hgroup with rfl | rfl
  · obtain rfl := Option.some.inj hdirectory
    simp only [limitFiles, List.mem_cons, List.not_mem_nil, or_false] at hname
    rcases hname with rfl | rfl | rfl
    · obtain rfl := Option.some.inj hbytes
      decide
    · cases hbytes
    · cases hbytes
  · obtain rfl := Option.some.inj hdirectory
    simp only [limitFiles, List.mem_cons, List.not_mem_nil, or_false] at hname
    rcases hname with rfl | rfl | rfl
    · obtain rfl := Option.some.inj hbytes
      decide
    · obtain rfl := Option.some.inj hbytes
      decide
    · cases hbytes

theorem limits_agree_sample :
    (Primary.read sampleDirectories "/db".toList).context =
      collectAncestorContext sampleDirectories "/db".toList :=
  (limits_agree ⟨"/db".toList, _, rfl, List.mem_cons_of_mem _ List.mem_cons_self⟩ rfl).2.2.2
    sampleDirectories_small

def paddedLimit (padding : Nat) : Chars := '5' :: List.replicate padding ' '

theorem trim_paddedLimit (padding : Nat) : trim (paddedLimit padding) = ['5'] := by
  have hdrop : (paddedLimit padding).dropWhile isWhitespace = ['5'] ++ List.replicate padding ' ' :=
    rfl
  rw [trim, hdrop]
  induction padding with
  | zero => rfl
  | succ padding ih =>
    rw [List.replicate_succ', ← List.append_assoc, List.rdropWhile_concat_pos _ _ _ rfl]
    exact ih rfl

theorem length_paddedLimit (padding : Nat) :
    (encode (paddedLimit padding)).length = padding + 1 := by
  have hspaces : (encode (List.replicate padding ' ')).length = padding := by
    induction padding with
    | zero => rfl
    | succ padding ih =>
      rw [List.replicate_succ, encode_cons, List.length_append, ih]
      exact Nat.add_comm 1 padding
  rw [paddedLimit, encode_cons, List.length_append, hspaces]
  exact Nat.add_comm 1 padding

/-- A root whose memory limit is one byte longer than its padding. -/
def paddedDirectories (padding : Nat) : Directories := fun path =>
  if path = "/".toList then
    some ⟨(1, 1), fun name =>
      if name = "memory.max" then some (encode (paddedLimit padding)) else none⟩
  else none

variable {padding : Nat}

theorem sysRead_padded (h : padding < maxProcFileBytes) :
    sysRead (paddedDirectories padding) "/".toList "memory.max" = some ['5'] := by
  have hlength : (encode (paddedLimit padding)).length ≤ maxProcFileBytes := by
    rw [length_paddedLimit]
    exact h
  show (readBounded maxProcFileBytes (encode (paddedLimit padding)) >>= _) = _
  rw [readBounded_of_le hlength, decode_encode]
  show (if trim (paddedLimit padding) = [] then none
    else some (trim (paddedLimit padding))) = some ['5']
  rw [trim_paddedLimit]
  rfl

theorem effectiveMemory_padded (h : padding < maxProcFileBytes) :
    effectiveMemory (paddedDirectories padding) "/".toList = some 5 := by
  show (["/".toList].filterMap fun path => ((sysRead (paddedDirectories padding) path
    "memory.max").bind parseMemoryMaxStrict).bind finiteLimit).min? = some 5
  rw [List.filterMap_cons, sysRead_padded h]
  rfl

theorem readBounded_padded (padding : Nat) :
    readBounded padding (encode (paddedLimit padding)) = none := by
  have hlength := length_paddedLimit padding
  rw [readBounded, List.take_of_length_le (Nat.le_of_eq hlength), decode_encode, Option.filter_some,
    hlength, decide_eq_false (Nat.not_succ_le_self _), if_neg Bool.false_ne_true]

theorem finiteMemory_padded (h : maxMetricBytes = padding) :
    (Primary.read (paddedDirectories padding) "/".toList).context.effectiveMemoryMax = none := by
  have hscalar : ∀ directory : Directory,
      directory.file "memory.max" = some (encode (paddedLimit padding)) →
        scalar directory "memory.max" limit = none := by
    intro directory hfile
    rw [scalar, hfile, h]
    show (readBounded padding (encode (paddedLimit padding)) >>= _) = _
    rw [readBounded_padded]
    rfl
  show (visitDirectory "/".toList "/".toList noReading _).finiteMemory = none
  dsimp only [visitDirectory]
  rw [hscalar]
  · rfl
  · rfl

/-- One reader has the limit, and the other has none. -/
theorem limits_differ :
    Tried "/".toList ∧
      (collectAncestorContext (paddedDirectories maxMetricBytes) "/".toList).effectiveMemoryMax =
        some 5 ∧
      (Primary.read (paddedDirectories maxMetricBytes) "/".toList).context.effectiveMemoryMax =
        none :=
  ⟨⟨"/".toList, _, rfl, List.mem_cons_self⟩, effectiveMemory_padded (by decide),
    finiteMemory_padded rfl⟩

end Chain

end Kronika.SourceOs
