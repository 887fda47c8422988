/-
Texts and their bytes in UTF-8.

Bytes that are no text are read with a replacement character for each part of them that no
character goes on with.
-/
import Kronika.Library.Utf8

namespace Kronika.Utf8

def encode (text : List Char) : List UInt8 := text.flatMap String.utf8EncodeChar

def decode (bytes : List UInt8) : Option (List Char) :=
  bytes.toByteArray.utf8Decode?.map Array.toList

def replacement : List UInt8 := [0xEF, 0xBF, 0xBD]

/-- Bytes behind the pending ones of a character, with the invalid parts replaced. -/
def repair (owed : Owed) (pending : List UInt8) : List UInt8 → List UInt8
  | [] => if owed = [] then [] else replacement
  | byte :: rest =>
    match step owed byte with
    | some [] => pending ++ byte :: repair [] [] rest
    | some next => repair next (pending ++ [byte]) rest
    | none =>
      if owed = [] then replacement ++ repair [] [] rest
      else
        -- The byte may begin a character where it does not go on with one.
        match lead byte with
        | some [] => replacement ++ byte :: repair [] [] rest
        | some next => replacement ++ repair next [byte] rest
        | none => replacement ++ (replacement ++ repair [] [] rest)

def decodeLossy (bytes : List UInt8) : List Char :=
  (decode bytes).getD ((decode (repair [] [] bytes)).getD [])

variable {c : Char} {b : UInt8} {text left right : List Char}

theorem encode_append (left right : List Char) :
    encode (left ++ right) = encode left ++ encode right := List.flatMap_append

theorem encode_cons (c : Char) (text : List Char) :
    encode (c :: text) = String.utf8EncodeChar c ++ encode text := List.flatMap_cons

theorem decode_encode (text : List Char) : decode (encode text) = some text := by
  have h : (encode text).toByteArray = text.utf8Encode := rfl
  rw [decode, h, List.utf8Decode?_utf8Encode]
  rfl

theorem encode_of_decode {bytes : List UInt8} (h : decode bytes = some text) :
    encode text = bytes := by
  obtain ⟨chars, hchars, rfl⟩ := Option.map_eq_some_iff.mp h
  have hsome : (bytes.toByteArray.utf8Decode?).isSome = true := by
    rw [hchars]
    rfl
  have hget : (bytes.toByteArray.utf8Decode?).get hsome = chars :=
    Option.get_of_eq_some hsome hchars
  have hencode := ByteArray.utf8Encode_get_utf8Decode? (h := hsome)
  rw [hget] at hencode
  have hbytes : (encode chars.toList).toByteArray = bytes.toByteArray := hencode
  exact List.toByteArray_inj.mp hbytes

theorem decodeLossy_encode (text : List Char) : decodeLossy (encode text) = text := by
  rw [decodeLossy, decode_encode, Option.getD_some]

theorem toNat_of_mem_utf8EncodeChar (hb : b ∈ String.utf8EncodeChar c) (hlt : b.toNat < 0x80) :
    c.toNat = b.toNat := by
  show c.val.toNat = b.toNat
  rw [String.utf8EncodeChar] at hb
  split_ifs at hb
  · rw [List.mem_singleton.mp hb, UInt8.toNat_ofNat']
    omega
  all_goals
    -- The bytes of a longer character are at least 0x80.
    exfalso
    simp only [List.mem_cons, List.not_mem_nil, or_false] at hb
    rcases hb with rfl | rfl | rfl | rfl <;> rw [UInt8.toNat_ofNat'] at hlt <;> omega

theorem decode_append_char (c : Char) (bytes : List UInt8) :
    decode (String.utf8EncodeChar c ++ bytes) = (decode bytes).map (c :: ·) := by
  have h : (String.utf8EncodeChar c ++ bytes).toByteArray =
      [c].utf8Encode ++ bytes.toByteArray := by
    rw [List.utf8Encode_singleton, List.toByteArray_append]
  rw [decode, h, ByteArray.utf8Decode?_utf8Encode_singleton_append, decode, Option.map_map,
    Option.map_map]
  congr 1
  funext text
  exact Array.toList_append

theorem head?_decodeLossy (hc : String.utf8EncodeChar c = [b]) (hlead : lead b = some [])
    (bytes : List UInt8) (hne : decodeLossy (b :: bytes) ≠ []) :
    (decodeLossy (b :: bytes)).head? = some c := by
  have hdecode : ∀ rest, decode (b :: rest) = (decode rest).map (c :: ·) := by
    intro rest
    have hrest := decode_append_char c rest
    rw [hc] at hrest
    exact hrest
  have hrepair : repair [] [] (b :: bytes) = b :: repair [] [] bytes := by
    rw [repair, step, hlead]
    rfl
  rw [decodeLossy, hdecode, hrepair, hdecode] at hne ⊢
  cases h : decode bytes with
  | some text => rfl
  | none =>
    rw [h] at hne
    cases hrepaired : decode (repair [] [] bytes) with
    | some text => rfl
    | none =>
      rw [hrepaired] at hne
      exact absurd rfl hne

end Kronika.Utf8
