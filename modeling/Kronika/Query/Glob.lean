/-
The case-insensitive patterns of a search.

`GlobPattern.matches` walks the candidate by byte offsets, and goes back to the last star
only.  It answers whether the candidate is a text of the pattern, and every offset it uses is
the start of a character or the end.
-/
import Mathlib.Data.List.Forall2
import Kronika.Library.Wildcards

namespace Kronika.Query

open Library

/-! ## Patterns -/

inductive GlobToken where
  | star
  | any
  | literal (wanted : Char)
deriving DecidableEq

structure GlobPattern where
  tokens : List GlobToken
deriving DecidableEq

namespace GlobPattern

def exact (raw : List Char) : GlobPattern := { tokens := raw.map .literal }

def contains (raw : List Char) : GlobPattern :=
  { tokens := .star :: raw.map .literal ++ [.star] }

def tokenOf (character : Char) : GlobToken :=
  match character with
  | '*' => .star
  | '?' => .any
  | literal => .literal literal

def pushToken (tokens : List GlobToken) (token : GlobToken) : List GlobToken :=
  if token ≠ .star ∨ tokens.getLast? ≠ some .star then tokens ++ [token] else tokens

def new (raw : List Char) : GlobPattern :=
  { tokens := pushToken ((raw.map tokenOf).foldl pushToken [.star]) .star }

end GlobPattern

/-! ## Offsets -/

def byteLen : List Char → Nat
  | [] => 0
  | c :: text => c.utf8Size + byteLen text

/-- `candidate.get(offset..)`: none inside a character or behind the end. -/
def sliceFrom : List Char → Nat → Option (List Char)
  | text, 0 => some text
  | [], _ + 1 => none
  | c :: text, offset + 1 =>
    if c.utf8Size ≤ offset + 1 then sliceFrom text (offset + 1 - c.utf8Size) else none

def charAt (text : List Char) (offset : Nat) : Option Char :=
  (sliceFrom text offset).bind List.head?

variable {offset : Nat}

variable {text rest : List Char}

theorem sliceFrom_iff :
    sliceFrom text offset = some rest ↔
      ∃ before, text = before ++ rest ∧ byteLen before = offset := by
  induction text generalizing offset with
  | nil =>
    cases offset with
    | zero =>
      rw [sliceFrom, Option.some_inj]
      constructor
      · rintro rfl
        exact ⟨[], rfl, rfl⟩
      · rintro ⟨before, h, _⟩
        exact (List.append_eq_nil_iff.mp h.symm).2.symm
    | succ offset =>
      constructor
      · intro h
        cases h
      · rintro ⟨before, h, hlen⟩
        rw [(List.append_eq_nil_iff.mp h.symm).1] at hlen
        cases hlen
  | cons c text ih =>
    cases offset with
    | zero =>
      rw [sliceFrom, Option.some_inj]
      constructor
      · rintro rfl
        exact ⟨[], rfl, rfl⟩
      · rintro ⟨before, h, hlen⟩
        cases before with
        | nil => exact h
        | cons d before =>
          have hd := d.utf8Size_pos
          rw [byteLen] at hlen
          omega
    | succ offset =>
      rw [sliceFrom]
      constructor
      · intro h
        split at h
        · obtain ⟨before, rfl, hlen⟩ := ih.mp h
          refine ⟨c :: before, rfl, ?_⟩
          rw [byteLen]
          omega
        · cases h
      · rintro ⟨before, h, hlen⟩
        cases before with
        | nil => cases hlen
        | cons d before =>
          obtain ⟨rfl, rfl⟩ := List.cons.inj h
          rw [byteLen] at hlen
          rw [if_pos (by omega)]
          exact ih.mpr ⟨before, rfl, by omega⟩

theorem byteLen_append (left right : List Char) :
    byteLen (left ++ right) = byteLen left + byteLen right := by
  induction left with
  | nil => rw [List.nil_append, byteLen, Nat.zero_add]
  | cons c left ih => rw [List.cons_append, byteLen, byteLen, ih, Nat.add_assoc]

theorem sliceFrom_zero (text : List Char) : sliceFrom text 0 = some text := by
  rw [sliceFrom]

variable {c : Char}

theorem sliceFrom_next (h : sliceFrom text offset = some (c :: rest)) :
    sliceFrom text (offset + c.utf8Size) = some rest := by
  obtain ⟨before, rfl, rfl⟩ := sliceFrom_iff.mp h
  refine sliceFrom_iff.mpr ⟨before ++ [c], by rw [List.append_assoc]; rfl, ?_⟩
  rw [byteLen_append, byteLen, byteLen, Nat.add_zero]

theorem le_of_sliceFrom
    (h : sliceFrom text offset = some rest) : offset + byteLen rest = byteLen text := by
  obtain ⟨before, rfl, rfl⟩ := sliceFrom_iff.mp h
  exact (byteLen_append ..).symm

variable {text : List Char}

theorem byteLen_eq_zero : byteLen text = 0 ↔ text = [] := by
  cases text with
  | nil => exact Iff.intro (fun _ => rfl) fun _ => rfl
  | cons c text =>
    have hpos := c.utf8Size_pos
    rw [byteLen]
    constructor
    · omega
    · intro h
      cases h

theorem charAt_eq_some :
    charAt text offset = some c ↔ ∃ rest, sliceFrom text offset = some (c :: rest) := by
  rw [charAt]
  cases sliceFrom text offset with
  | none => simp
  | some slice => cases slice <;> simp [eq_comm]

/-! ## Matching -/

section Matching

variable (lowercase : Char → List Char)

/-- Equal under the lower case mapping, which may be of several characters. -/
def unicodeCharEqual (left right : Char) : Bool := lowercase left = lowercase right

/-- Whether a token is a test that the character passes. -/
def GlobToken.accepts (token : GlobToken) (character : Char) : Bool :=
  match token with
  | .star => false
  | .any => true
  | .literal wanted => unicodeCharEqual lowercase wanted character

/-- The variables of the loop.  The last star lies before the token that is looked at. -/
structure GlobState where
  patternIndex : Nat
  candidateIndex : Nat
  star : Option Nat
  retry : Nat
  star_lt : ∀ index ∈ star, index < patternIndex

namespace GlobState

def start : GlobState where
  patternIndex := 0
  candidateIndex := 0
  star := none
  retry := 0
  star_lt := fun _ h => absurd h (Option.not_mem_none _)

/-- The token took the character. -/
def advance (state : GlobState) (character : Char) : GlobState where
  patternIndex := state.patternIndex + 1
  candidateIndex := state.candidateIndex + character.utf8Size
  star := state.star
  retry := state.retry
  star_lt index h := Nat.lt_succ_of_lt (state.star_lt index h)

/-- The star takes nothing for now. -/
def enter (state : GlobState) : GlobState where
  patternIndex := state.patternIndex + 1
  candidateIndex := state.candidateIndex
  star := some state.patternIndex
  retry := state.candidateIndex
  star_lt index h := by
    rw [Option.mem_some_iff] at h
    omega

/-- The last star takes one character more. -/
def backtrack (state : GlobState) (star : Nat) (character : Char) : GlobState where
  patternIndex := star + 1
  candidateIndex := state.retry + character.utf8Size
  star := some star
  retry := state.retry + character.utf8Size
  star_lt index h := by
    rw [Option.mem_some_iff] at h
    omega

end GlobState

inductive GlobStep where
  | next (state : GlobState)
  | stop (answer : Bool)

/-- One round of the loop. -/
def globStep (tokens : List GlobToken) (candidate : List Char) (state : GlobState) : GlobStep :=
  match charAt candidate state.candidateIndex with
  | none => .stop false
  | some character =>
    match tokens[state.patternIndex]? with
    | some token =>
      if token.accepts lowercase character then .next (state.advance character)
      else if token = .star then .next state.enter
      else retryStar state
    | none => retryStar state
where
  retryStar (state : GlobState) : GlobStep :=
    match state.star with
    | none => .stop false
    | some star =>
      match charAt candidate state.retry with
      | none => .stop false
      | some character => .next (state.backtrack star character)

def starsLeft (tokens : List GlobToken) (state : GlobState) : Nat :=
  tokens.length - (state.star.map (· + 1)).getD 0

/-- `while self.0.get(pattern_index) == Some(&GlobToken::Star)`. -/
def skipStars (tokens : List GlobToken) (patternIndex : Nat) : Nat :=
  if _h : tokens[patternIndex]? = some .star then skipStars tokens (patternIndex + 1)
  else patternIndex
termination_by tokens.length - patternIndex
decreasing_by
  have hlt := (List.getElem?_eq_some_iff.mp _h).1
  omega

theorem lt_of_charAt (h : charAt text offset = some c) : offset + c.utf8Size ≤ byteLen text := by
  obtain ⟨rest, hslice⟩ := charAt_eq_some.mp h
  have hlen := le_of_sliceFrom hslice
  rw [byteLen] at hlen
  omega

def Stuck (tokens : List GlobToken) (state : GlobState) (character : Char) : Prop :=
  ∀ token ∈ tokens[state.patternIndex]?, token.accepts lowercase character = false ∧ token ≠ .star

section Step

variable {lowercase} {tokens : List GlobToken} {candidate : List Char} {state next : GlobState}
  {character : Char}

theorem retryStar_next (h : globStep.retryStar candidate state = .next next) :
    ∃ star again, state.star = some star ∧ charAt candidate state.retry = some again ∧
      next = state.backtrack star again := by
  rw [globStep.retryStar] at h
  cases hstar : state.star with
  | none =>
    rw [hstar] at h
    cases h
  | some star =>
    rw [hstar] at h
    cases hagain : charAt candidate state.retry with
    | none =>
      rw [hagain] at h
      cases h
    | some again =>
      rw [hagain] at h
      exact ⟨star, again, rfl, rfl, (GlobStep.next.inj h).symm⟩

theorem retryStar_stop {answer : Bool} (h : globStep.retryStar candidate state = .stop answer) :
    answer = false ∧ ∀ star ∈ state.star, charAt candidate state.retry = none := by
  rw [globStep.retryStar] at h
  cases hstar : state.star with
  | none =>
    rw [hstar] at h
    exact ⟨(GlobStep.stop.inj h).symm, fun _ hmem => absurd hmem (Option.not_mem_none _)⟩
  | some star =>
    rw [hstar] at h
    cases hagain : charAt candidate state.retry with
    | none =>
      rw [hagain] at h
      exact ⟨(GlobStep.stop.inj h).symm, fun _ _ => rfl⟩
    | some again =>
      rw [hagain] at h
      cases h

theorem globStep_cases (lowercase : Char → List Char) (tokens : List GlobToken)
    (hchar : charAt candidate state.candidateIndex = some character) :
    (∃ token ∈ tokens[state.patternIndex]?, token.accepts lowercase character = true ∧
        globStep lowercase tokens candidate state = .next (state.advance character)) ∨
      (tokens[state.patternIndex]? = some .star ∧
        globStep lowercase tokens candidate state = .next state.enter) ∨
      (Stuck lowercase tokens state character ∧
        globStep lowercase tokens candidate state = globStep.retryStar candidate state) := by
  rw [globStep, hchar]
  cases htoken : tokens[state.patternIndex]? with
  | none =>
    refine .inr (.inr ⟨?_, rfl⟩)
    rw [Stuck, htoken]
    exact fun _ hmem => absurd hmem (Option.not_mem_none _)
  | some token =>
    dsimp only
    by_cases haccepts : token.accepts lowercase character = true
    · rw [if_pos haccepts]
      exact .inl ⟨token, rfl, haccepts, rfl⟩
    · rw [if_neg haccepts]
      by_cases hstar : token = .star
      · rw [if_pos hstar]
        exact .inr (.inl ⟨congrArg some hstar, rfl⟩)
      · rw [if_neg hstar]
        refine .inr (.inr ⟨?_, rfl⟩)
        rw [Stuck, htoken]
        intro other hmem
        rw [← Option.mem_some_iff.mp hmem]
        exact ⟨Bool.eq_false_iff.mpr haccepts, hstar⟩

theorem globStep_next (h : globStep lowercase tokens candidate state = .next next) :
    Prod.Lex (· < ·) (Prod.Lex (· < ·) (· < ·))
      (starsLeft tokens next, byteLen candidate - next.retry, tokens.length - next.patternIndex)
      (starsLeft tokens state, byteLen candidate - state.retry,
        tokens.length - state.patternIndex) := by
  cases hchar : charAt candidate state.candidateIndex with
  | none =>
    rw [globStep, hchar] at h
    cases h
  | some character =>
    rcases globStep_cases lowercase tokens hchar with
      ⟨token, htoken, _, heq⟩ | ⟨htoken, heq⟩ | ⟨_, heq⟩
    · rw [heq] at h
      obtain rfl := GlobStep.next.inj h
      have hlt := (List.getElem?_eq_some_iff.mp htoken).1
      refine .right _ (.right _ ?_)
      show tokens.length - (state.patternIndex + 1) < tokens.length - state.patternIndex
      omega
    · rw [heq] at h
      obtain rfl := GlobStep.next.inj h
      have hlt := (List.getElem?_eq_some_iff.mp htoken).1
      refine .left _ _ ?_
      show tokens.length - (state.patternIndex + 1) < starsLeft tokens state
      rw [starsLeft]
      cases hstar : state.star with
      | none =>
        show tokens.length - (state.patternIndex + 1) < tokens.length - 0
        omega
      | some star =>
        have hbefore := state.star_lt star hstar
        show tokens.length - (state.patternIndex + 1) < tokens.length - (star + 1)
        omega
    · rw [heq] at h
      obtain ⟨star, again, hstar, hagain, rfl⟩ := retryStar_next h
      have hsize := again.utf8Size_pos
      have hend := lt_of_charAt hagain
      have hsame : starsLeft tokens (state.backtrack star again) = starsLeft tokens state := by
        rw [starsLeft, starsLeft, hstar]
        rfl
      rw [hsame]
      refine .right _ (.left _ _ ?_)
      show byteLen candidate - (state.retry + again.utf8Size) < byteLen candidate - state.retry
      omega

end Step

def matchLoop (tokens : List GlobToken) (candidate : List Char) (state : GlobState) : Bool :=
  if state.candidateIndex < byteLen candidate then
    match _h : globStep lowercase tokens candidate state with
    | .stop answer => answer
    | .next next => matchLoop tokens candidate next
  else skipStars tokens state.patternIndex = tokens.length
termination_by (starsLeft tokens state, byteLen candidate - state.retry,
  tokens.length - state.patternIndex)
decreasing_by exact globStep_next _h

def GlobPattern.matches (pattern : GlobPattern) (candidate : List Char) : Bool :=
  matchLoop lowercase pattern.tokens candidate .start

/-! ## The texts of a pattern -/

def GlobToken.wild (token : GlobToken) : Wild Char :=
  match token with
  | .star => .star
  | token => .one (token.accepts lowercase)

def Matched (tokens : List GlobToken) (text : List Char) : Prop :=
  Denotes (tokens.map (GlobToken.wild lowercase)) text

/-- What the loop knows: the last star has taken up to its retry, and the single tokens
behind it have taken the characters from there up to the rest of the candidate. -/
structure Walk (tokens : List GlobToken) (candidate : List Char) (state : GlobState)
    (rest : List Char) : Prop where
  pattern_le : state.patternIndex ≤ tokens.length
  candidate_eq : sliceFrom candidate state.candidateIndex = some rest
  star : ∀ star ∈ state.star, ∃ walked singles,
    sliceFrom candidate state.retry = some (walked ++ rest) ∧ singles.length = walked.length ∧
      tokens.drop (star + 1) = singles ++ tokens.drop state.patternIndex ∧
        ∀ token ∈ singles, token ≠ GlobToken.star

/-- What is left to match: the tokens that are looked at, or the last star with more. -/
def Open (tokens : List GlobToken) (candidate : List Char) (state : GlobState) (rest : List Char) :
    Prop :=
  Matched lowercase (tokens.drop state.patternIndex) rest ∨
    ∃ star ∈ state.star, ∃ c tail, sliceFrom candidate state.retry = some (c :: tail) ∧
      Matched lowercase (.star :: tokens.drop (star + 1)) tail

section Run

variable {lowercase} {tokens : List GlobToken} {candidate rest : List Char}
  {state next : GlobState} {character : Char}

variable {token : GlobToken}

theorem isOne_wild : (token.wild lowercase).IsOne ↔ token ≠ .star := by
  cases token with
  | star => exact Iff.intro (fun h => absurd h id) fun h => absurd rfl h
  | any => exact Iff.intro (fun _ h => nomatch h) fun _ => trivial
  | literal wanted => exact Iff.intro (fun _ h => nomatch h) fun _ => trivial

theorem isOne_singles {singles : List GlobToken} (h : ∀ token ∈ singles, token ≠ GlobToken.star) :
    ∀ token ∈ singles.map (GlobToken.wild lowercase), token.IsOne := by
  intro token hmem
  obtain ⟨single, hsingle, rfl⟩ := List.mem_map.mp hmem
  exact isOne_wild.mpr (h single hsingle)

theorem matched_star_iff {more : List GlobToken} (text : List Char) :
    Matched lowercase (.star :: more) text ↔
      Matched lowercase more text ∨
        ∃ c tail, text = c :: tail ∧ Matched lowercase (.star :: more) tail :=
  denotes_star_iff

theorem matched_one_cons {more : List GlobToken}
    (h : token ≠ .star) : Matched lowercase (token :: more) (character :: text) ↔
      token.accepts lowercase character = true ∧ Matched lowercase more text := by
  cases token with
  | star => exact absurd rfl h
  | any => exact denotes_one_cons
  | literal wanted => exact denotes_one_cons

theorem drop_of_getElem? {index : Nat} (h : tokens[index]? = some token) :
    tokens.drop index = token :: tokens.drop (index + 1) := by
  obtain ⟨hlt, rfl⟩ := List.getElem?_eq_some_iff.mp h
  exact List.drop_eq_getElem_cons hlt

/-! ### One round -/

theorem Walk.advance (h : Walk tokens candidate state (character :: rest))
    (htoken : tokens[state.patternIndex]? = some token)
    (haccepts : token.accepts lowercase character = true) :
    Walk tokens candidate (state.advance character) rest ∧
      (Open lowercase tokens candidate (state.advance character) rest ↔
        Open lowercase tokens candidate state (character :: rest)) := by
  have hlt := (List.getElem?_eq_some_iff.mp htoken).1
  have hdrop := drop_of_getElem? htoken
  have hsingle : token ≠ .star := by
    rintro rfl
    cases haccepts
  refine ⟨⟨hlt, sliceFrom_next h.candidate_eq, ?_⟩, ?_⟩
  · intro star hstar
    obtain ⟨walked, singles, hretry, hlength, htokens, hsingles⟩ := h.star star hstar
    refine ⟨walked ++ [character], singles ++ [token], ?_, ?_, ?_, ?_⟩
    · rw [List.append_assoc]
      exact hretry
    · rw [List.length_append, List.length_append, hlength]
      rfl
    · show _ = (singles ++ [token]) ++ tokens.drop (state.patternIndex + 1)
      rw [htokens, hdrop, List.append_assoc]
      rfl
    · intro other hmem
      rcases List.mem_append.mp hmem with hmem | hmem
      · exact hsingles other hmem
      · rw [List.mem_singleton.mp hmem]
        exact hsingle
  · rw [Open, Open, hdrop, matched_one_cons hsingle]
    exact or_congr (and_iff_right haccepts).symm Iff.rfl

theorem Walk.enter (h : Walk tokens candidate state (character :: rest))
    (htoken : tokens[state.patternIndex]? = some .star) :
    Walk tokens candidate state.enter (character :: rest) ∧
      (Open lowercase tokens candidate state.enter (character :: rest) ↔
        Open lowercase tokens candidate state (character :: rest)) := by
  have hlt := (List.getElem?_eq_some_iff.mp htoken).1
  have hdrop := drop_of_getElem? htoken
  refine ⟨⟨hlt, h.candidate_eq, ?_⟩, ?_⟩
  · intro star hstar
    obtain rfl := Option.mem_some_iff.mp hstar
    exact ⟨[], [], h.candidate_eq, rfl, rfl, fun _ hmem => absurd hmem List.not_mem_nil⟩
  · -- What an earlier star could still match, the new one can match as well.
    have hearlier : (∃ star ∈ state.star, ∃ c tail,
        sliceFrom candidate state.retry = some (c :: tail) ∧
          Matched lowercase (.star :: tokens.drop (star + 1)) tail) →
        Matched lowercase (.star :: tokens.drop (state.patternIndex + 1)) (character :: rest) := by
      rintro ⟨star, hstar, c, tail, hretry, hmatched⟩
      obtain ⟨walked, singles, hwalked, hlength, htokens, hsingles⟩ := h.star star hstar
      have hslice : c :: tail = walked ++ character :: rest :=
        Option.some.inj (hretry.symm.trans hwalked)
      have hmore : Matched lowercase (.star :: tokens.drop (star + 1))
          (walked ++ character :: rest) := by
        rw [← hslice]
        exact denotes_star_mono (List.suffix_cons c tail) hmatched
      rw [Matched, List.map_cons, htokens, hdrop, List.map_append] at hmore
      refine denotes_later_star (isOne_singles hsingles) ?_ hmore
      rw [List.length_map, hlength]
    rw [Open, Open, hdrop]
    have hnew : (Matched lowercase (tokens.drop (state.patternIndex + 1)) (character :: rest) ∨
        ∃ star ∈ some state.patternIndex, ∃ c tail,
          sliceFrom candidate state.candidateIndex = some (c :: tail) ∧
            Matched lowercase (.star :: tokens.drop (star + 1)) tail) ↔
        Matched lowercase (.star :: tokens.drop (state.patternIndex + 1)) (character :: rest) := by
      rw [matched_star_iff (character :: rest), h.candidate_eq]
      refine or_congr Iff.rfl ?_
      constructor
      · rintro ⟨star, hstar, c, tail, hslice, hmatched⟩
        obtain rfl := Option.mem_some_iff.mp hstar
        exact ⟨c, tail, Option.some.inj hslice, hmatched⟩
      · rintro ⟨c, tail, hslice, hmatched⟩
        exact ⟨_, rfl, c, tail, congrArg some hslice, hmatched⟩
    refine hnew.trans ⟨.inl, ?_⟩
    rintro (hmatched | hstar)
    · exact hmatched
    · exact hearlier hstar

theorem not_matched_of_stuck (h : Stuck lowercase tokens state character) :
    ¬Matched lowercase (tokens.drop state.patternIndex) (character :: rest) := by
  cases htoken : tokens[state.patternIndex]? with
  | none =>
    rw [List.drop_of_length_le (List.getElem?_eq_none_iff.mp htoken)]
    intro hmatched
    cases hmatched
  | some token =>
    obtain ⟨haccepts, hsingle⟩ := h token htoken
    rw [drop_of_getElem? htoken, matched_one_cons hsingle, haccepts]
    intro hmatched
    cases hmatched.1

theorem Walk.backtrack {star : Nat} {again : Char}
    (h : Walk tokens candidate state (character :: rest))
    (hstuck : Stuck lowercase tokens state character) (hstar : state.star = some star)
    (hagain : charAt candidate state.retry = some again) :
    ∃ rest', Walk tokens candidate (state.backtrack star again) rest' ∧
      (Open lowercase tokens candidate (state.backtrack star again) rest' ↔
        Open lowercase tokens candidate state (character :: rest)) := by
  obtain ⟨tail, hretry⟩ := charAt_eq_some.mp hagain
  have hnext := sliceFrom_next hretry
  have hbefore := state.star_lt star hstar
  have hle := h.pattern_le
  refine ⟨tail, ⟨by show star + 1 ≤ tokens.length; omega, hnext, ?_⟩, ?_⟩
  · intro other hother
    obtain rfl := Option.mem_some_iff.mp hother
    exact ⟨[], [], hnext, rfl, rfl, fun _ hmem => absurd hmem List.not_mem_nil⟩
  · have hold : Open lowercase tokens candidate state (character :: rest) ↔
        Matched lowercase (.star :: tokens.drop (star + 1)) tail := by
      rw [Open, or_iff_right (not_matched_of_stuck hstuck), hstar, hretry]
      constructor
      · rintro ⟨other, hother, c, later, hslice, hmatched⟩
        obtain rfl := Option.mem_some_iff.mp hother
        obtain ⟨-, rfl⟩ := List.cons.inj (Option.some.inj hslice)
        exact hmatched
      · intro hmatched
        exact ⟨star, rfl, again, tail, rfl, hmatched⟩
    rw [hold, matched_star_iff]
    refine or_congr Iff.rfl ?_
    constructor
    · rintro ⟨other, hother, c, later, hslice, hmatched⟩
      obtain rfl := Option.mem_some_iff.mp hother
      exact ⟨c, later, Option.some.inj (hnext.symm.trans hslice), hmatched⟩
    · rintro ⟨c, later, rfl, hmatched⟩
      exact ⟨star, rfl, c, later, hnext, hmatched⟩

theorem Walk.round (lowercase : Char → List Char)
    (h : Walk tokens candidate state (character :: rest)) :
    (∃ next rest', globStep lowercase tokens candidate state = .next next ∧
        Walk tokens candidate next rest' ∧
          (Open lowercase tokens candidate next rest' ↔
            Open lowercase tokens candidate state (character :: rest))) ∨
      (globStep lowercase tokens candidate state = .stop false ∧
        ¬Open lowercase tokens candidate state (character :: rest)) := by
  have hchar : charAt candidate state.candidateIndex = some character :=
    charAt_eq_some.mpr ⟨rest, h.candidate_eq⟩
  rcases globStep_cases lowercase tokens hchar with
    ⟨token, htoken, haccepts, heq⟩ | ⟨htoken, heq⟩ | ⟨hstuck, heq⟩
  · exact .inl ⟨_, _, heq, h.advance htoken haccepts⟩
  · exact .inl ⟨_, _, heq, h.enter htoken⟩
  · rw [heq]
    cases hretry : globStep.retryStar candidate state with
    | next next =>
      obtain ⟨star, again, hstar, hagain, rfl⟩ := retryStar_next hretry
      obtain ⟨rest', hwalk, hopen⟩ := h.backtrack hstuck hstar hagain
      exact .inl ⟨_, rest', rfl, hwalk, hopen⟩
    | stop answer =>
      obtain ⟨rfl, hnone⟩ := retryStar_stop hretry
      refine .inr ⟨rfl, ?_⟩
      rintro (hmatched | ⟨star, hstar, c, tail, hslice, _⟩)
      · exact not_matched_of_stuck hstuck hmatched
      · have hsome : charAt candidate state.retry = some c := charAt_eq_some.mpr ⟨tail, hslice⟩
        rw [hnone star hstar] at hsome
        cases hsome

theorem skipStars_eq_length {patternIndex : Nat} (h : patternIndex ≤ tokens.length) :
    skipStars tokens patternIndex = tokens.length ↔
      ∀ token ∈ tokens.drop patternIndex, token = GlobToken.star := by
  induction hcount : tokens.length - patternIndex generalizing patternIndex with
  | zero =>
    have hend : patternIndex = tokens.length := by omega
    rw [skipStars, dif_neg (by rw [List.getElem?_eq_none (by omega)]; exact nofun), hend,
      List.drop_length]
    exact Iff.intro (fun _ _ hmem => absurd hmem List.not_mem_nil) fun _ => rfl
  | succ count ih =>
    have hlt : patternIndex < tokens.length := by omega
    have htoken : tokens[patternIndex]? = some tokens[patternIndex] := List.getElem?_eq_getElem hlt
    rw [skipStars, drop_of_getElem? htoken, List.forall_mem_cons, htoken]
    by_cases hstar : tokens[patternIndex] = .star
    · rw [dif_pos (congrArg some hstar), ih (by omega) (by omega)]
      exact (and_iff_right hstar).symm
    · rw [dif_neg fun h => hstar (Option.some.inj h)]
      constructor
      · intro heq
        omega
      · intro hall
        exact absurd hall.1 hstar

theorem Walk.finish (h : Walk tokens candidate state []) :
    Open lowercase tokens candidate state [] ↔
      skipStars tokens state.patternIndex = tokens.length := by
  have hstars : Matched lowercase (tokens.drop state.patternIndex) [] ↔
      ∀ token ∈ tokens.drop state.patternIndex, token = GlobToken.star := by
    rw [Matched, denotes_nil_right, List.forall_mem_map]
    refine forall₂_congr fun token _ => ?_
    rw [isOne_wild, not_ne_iff]
  rw [skipStars_eq_length h.pattern_le, ← hstars]
  refine or_iff_left ?_
  -- An earlier star would need more characters than it has left.
  rintro ⟨star, hstar, c, tail, hslice, later, hlater, hmatched⟩
  obtain ⟨walked, singles, hretry, hlength, htokens, hsingles⟩ := h.star star hstar
  have hwalked : walked = c :: tail := by
    rw [← List.append_nil walked]
    exact Option.some.inj (hretry.symm.trans hslice)
  rw [htokens, List.map_append] at hmatched
  have hshort := (denotes_ones_append (isOne_singles hsingles) hmatched).1
  have hle := hlater.length_le
  rw [List.length_map, hlength, hwalked, List.length_cons] at hshort
  omega

theorem matchLoop_iff (h : Walk tokens candidate state rest) :
    matchLoop lowercase tokens candidate state = true ↔
      Open lowercase tokens candidate state rest := by
  have hbytes := le_of_sliceFrom h.candidate_eq
  induction state using matchLoop.induct lowercase tokens candidate generalizing rest with
  | case1 state hlt answer hstop =>
    cases rest with
    | nil =>
      rw [byteLen] at hbytes
      omega
    | cons character rest =>
      rcases h.round lowercase with ⟨next, rest', hnext, _⟩ | ⟨hround, hclosed⟩
      · rw [hnext] at hstop
        cases hstop
      · rw [matchLoop, if_pos hlt, hround]
        exact (iff_false_intro Bool.false_ne_true).trans (iff_false_intro hclosed).symm
  | case2 state hlt next hnext ih =>
    cases rest with
    | nil =>
      rw [byteLen] at hbytes
      omega
    | cons character rest =>
      rcases h.round lowercase with ⟨next', rest', hround, hwalk, hopen⟩ | ⟨hround, _⟩
      · obtain rfl := GlobStep.next.inj (hnext.symm.trans hround)
        rw [matchLoop, if_pos hlt, hround]
        exact (ih hwalk (le_of_sliceFrom hwalk.candidate_eq)).trans hopen
      · rw [hround] at hnext
        cases hnext
  | case3 state hge =>
    have hend : rest = [] := byteLen_eq_zero.mp (by omega)
    subst hend
    rw [matchLoop, if_neg hge, decide_eq_true_eq]
    exact h.finish.symm

end Run

/-! ## Every run -/

/-- The states that the loop comes to. -/
inductive Reaches (tokens : List GlobToken) (candidate : List Char) : GlobState → Prop where
  | start : Reaches tokens candidate .start
  | step {state next : GlobState} : Reaches tokens candidate state →
      state.candidateIndex < byteLen candidate →
      globStep lowercase tokens candidate state = .next next → Reaches tokens candidate next

/-- The indices of a state are within the pattern and the candidate, at the starts of
characters, and there is a character wherever the loop looks for one. -/
structure InRange (tokens : List GlobToken) (candidate : List Char) (state : GlobState) : Prop where
  pattern_le : state.patternIndex ≤ tokens.length
  star_lt : ∀ star ∈ state.star, star < tokens.length
  candidate_le : state.candidateIndex ≤ byteLen candidate
  character : state.candidateIndex < byteLen candidate →
    ∃ character, charAt candidate state.candidateIndex = some character
  retry : state.candidateIndex < byteLen candidate → ∀ star ∈ state.star,
    ∃ character, charAt candidate state.retry = some character

section Every

variable {lowercase} {tokens : List GlobToken} {candidate rest : List Char} {state : GlobState}

theorem walk_start (tokens : List GlobToken) (candidate : List Char) :
    Walk tokens candidate .start candidate where
  pattern_le := Nat.zero_le _
  candidate_eq := sliceFrom_zero candidate
  star _ h := absurd h (Option.not_mem_none _)

theorem Reaches.walk (h : Reaches lowercase tokens candidate state) :
    ∃ rest, Walk tokens candidate state rest := by
  induction h with
  | start => exact ⟨candidate, walk_start tokens candidate⟩
  | @step state next _ hlt hnext ih =>
    obtain ⟨rest, hwalk⟩ := ih
    have hbytes := le_of_sliceFrom hwalk.candidate_eq
    cases rest with
    | nil =>
      rw [byteLen] at hbytes
      omega
    | cons character rest =>
      rcases hwalk.round lowercase with ⟨next', rest', hround, hwalk', _⟩ | ⟨hround, _⟩
      · obtain rfl := GlobStep.next.inj (hnext.symm.trans hround)
        exact ⟨rest', hwalk'⟩
      · rw [hround] at hnext
        cases hnext

theorem Walk.inRange (h : Walk tokens candidate state rest) : InRange tokens candidate state where
  pattern_le := h.pattern_le
  star_lt star hstar := Nat.lt_of_lt_of_le (state.star_lt star hstar) h.pattern_le
  candidate_le := by
    have hbytes := le_of_sliceFrom h.candidate_eq
    omega
  character hlt := by
    have hbytes := le_of_sliceFrom h.candidate_eq
    cases rest with
    | nil =>
      rw [byteLen] at hbytes
      omega
    | cons character rest => exact ⟨character, charAt_eq_some.mpr ⟨rest, h.candidate_eq⟩⟩
  retry hlt star hstar := by
    have hbytes := le_of_sliceFrom h.candidate_eq
    obtain ⟨walked, _, hretry, _⟩ := h.star star hstar
    cases hslice : walked ++ rest with
    | nil =>
      rw [(List.append_eq_nil_iff.mp hslice).2, byteLen] at hbytes
      omega
    | cons character tail =>
      rw [hslice] at hretry
      exact ⟨character, charAt_eq_some.mpr ⟨tail, hretry⟩⟩

theorem matches_iff {pattern : GlobPattern} :
    pattern.matches lowercase candidate = true ↔ Matched lowercase pattern.tokens candidate := by
  rw [GlobPattern.matches, matchLoop_iff (walk_start pattern.tokens candidate)]
  refine or_iff_left ?_
  rintro ⟨star, hstar, _⟩
  exact absurd hstar (Option.not_mem_none _)

/-! ## What the constructors mean -/

theorem matched_literals {raw : List Char} : Matched lowercase (raw.map .literal) candidate ↔
    List.Forall₂ (fun wanted character => unicodeCharEqual lowercase wanted character = true)
      raw candidate := by
  induction raw generalizing candidate with
  | nil => rw [List.forall₂_nil_left_iff]; exact Iff.rfl
  | cons wanted raw ih =>
    cases candidate with
    | nil =>
      constructor
      · intro h
        exact absurd h not_denotes_one_nil
      · intro h
        cases h
    | cons character candidate =>
      have hliteral : GlobToken.literal wanted ≠ .star := nofun
      rw [List.map_cons, matched_one_cons hliteral, ih, List.forall₂_cons]
      exact Iff.rfl

def Within (language : List Char → Prop) (candidate : List Char) : Prop :=
  ∃ before middle after, candidate = before ++ middle ++ after ∧ language middle

theorem matched_between_stars : Matched lowercase (.star :: tokens ++ [.star]) candidate ↔
    Within (Matched lowercase tokens) candidate := by
  have hmap : (GlobToken.star :: tokens ++ [GlobToken.star]).map (GlobToken.wild lowercase) =
      .star :: (tokens.map (GlobToken.wild lowercase) ++ [.star]) := by
    rw [List.cons_append, List.map_cons, List.map_append]
    rfl
  rw [Matched, hmap]
  constructor
  · rintro ⟨later, ⟨before, rfl⟩, hdenotes⟩
    obtain ⟨middle, ⟨after, rfl⟩, hmiddle⟩ := denotes_concat_star.mp hdenotes
    exact ⟨before, middle, after, (List.append_assoc ..).symm, hmiddle⟩
  · rintro ⟨before, middle, after, rfl, hmiddle⟩
    exact ⟨middle ++ after, ⟨before, (List.append_assoc ..).symm⟩,
      denotes_concat_star.mpr ⟨middle, List.prefix_append .., hmiddle⟩⟩

theorem matched_pushToken (tokens : List GlobToken) (token : GlobToken) (more : List GlobToken) :
    Matched lowercase (GlobPattern.pushToken tokens token ++ more) candidate ↔
      Matched lowercase (tokens ++ token :: more) candidate := by
  rw [GlobPattern.pushToken]
  split
  · rw [List.append_assoc]
    exact Iff.rfl
  · next h =>
    rw [not_or, not_ne_iff, not_ne_iff] at h
    obtain ⟨rfl, hlast⟩ := h
    obtain ⟨before, rfl⟩ := List.getLast?_eq_some_iff.mp hlast
    have hsplit : ∀ others : List GlobToken, Matched lowercase (before ++ others) candidate ↔
        ∃ front rest, candidate = front ++ rest ∧ Matched lowercase before front ∧
          Matched lowercase others rest := by
      intro others
      rw [Matched, List.map_append]
      exact denotes_append
    rw [List.append_assoc, List.append_assoc, hsplit, hsplit]
    refine exists_congr fun front => exists_congr fun rest => and_congr Iff.rfl
      (and_congr Iff.rfl ?_)
    exact denotes_star_star.symm

theorem matched_foldl_pushToken {raw more : List GlobToken} :
    Matched lowercase (raw.foldl GlobPattern.pushToken tokens ++ more) candidate ↔
      Matched lowercase (tokens ++ raw ++ more) candidate := by
  induction raw generalizing tokens with
  | nil => rw [List.foldl_nil, List.append_nil]
  | cons token raw ih =>
    rw [List.foldl_cons, ih, List.append_assoc, matched_pushToken, List.append_assoc]
    exact Iff.rfl

theorem matched_new {raw : List Char} :
    Matched lowercase (GlobPattern.new raw).tokens candidate ↔
      Within (Matched lowercase (raw.map GlobPattern.tokenOf)) candidate := by
  have hlast : Matched lowercase ((GlobPattern.new raw).tokens ++ []) candidate ↔ _ :=
    matched_pushToken _ _ _
  rw [List.append_nil, matched_foldl_pushToken] at hlast
  exact hlast.trans matched_between_stars

end Every

/-- A pattern matches the candidates that are its texts, and its indices stay in range; the
texts of the three kinds of patterns are those of their raw text. -/
theorem glob_matches (pattern : GlobPattern) (raw candidate : List Char) :
    (pattern.matches lowercase candidate = true ↔
        Matched lowercase pattern.tokens candidate) ∧
      (∀ state, Reaches lowercase pattern.tokens candidate state →
        InRange pattern.tokens candidate state) ∧
      ((GlobPattern.exact raw).matches lowercase candidate = true ↔
        List.Forall₂ (fun wanted character => unicodeCharEqual lowercase wanted character = true)
          raw candidate) ∧
      ((GlobPattern.contains raw).matches lowercase candidate = true ↔
        Within (List.Forall₂ (fun wanted character =>
          unicodeCharEqual lowercase wanted character = true) raw) candidate) ∧
      ((GlobPattern.new raw).matches lowercase candidate = true ↔
        Within (Matched lowercase (raw.map GlobPattern.tokenOf)) candidate) := by
  refine ⟨matches_iff, ?_, ?_, ?_, ?_⟩
  · intro state hreaches
    obtain ⟨rest, hwalk⟩ := hreaches.walk
    exact hwalk.inRange
  · exact matches_iff.trans matched_literals
  · rw [matches_iff, GlobPattern.contains, matched_between_stars]
    have hlanguage : Matched lowercase (raw.map .literal) =
        List.Forall₂ (fun wanted character =>
          unicodeCharEqual lowercase wanted character = true) raw := by
      funext text
      exact propext matched_literals
    rw [hlanguage]
  · exact matches_iff.trans matched_new

end Matching

end Kronika.Query
