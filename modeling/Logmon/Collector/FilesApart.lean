/-
# No two collectors share a file

`collector/persist.rs`: owner and name are each encoded byte by byte, in words
of which none starts another, over letters without a `.`. So a canonical name
comes apart at its dots, a full one into three parts and a shortened one into
four, and its parts give the owner and the name back. The names stay apart on a
file system that does not tell letter cases apart, since only the digits of a
`%XX` are capitals and no digit has a letter's small form. A shortened name
keeps a hash of the pair, so two of those are apart as their hashes are.

Key definitions: `foldByte`, `foldName`, `Shortened`, `nameHash`.
Key theorems: `encode_fold_injective`, `collector_files_apart`.
-/
import Logmon.Collector.FileNames
import Logmon.Lib.PrefixCode
import Mathlib.Data.List.Induction

namespace Logmon

open Lib

/-- A byte without its letter case. -/
def foldByte (b : Byte) : Byte := if byte 'A' ≤ b ∧ b ≤ byte 'Z' then b + 32 else b

/-- What a file system that does not tell cases apart makes of a name. -/
def foldName (n : FileName) : FileName := n.map foldByte

/-! ### The words -/

/-- The length of the word that starts with a byte. -/
def wordLength (b : Byte) : ℕ := if b = byte '^' then 2 else if b = byte '%' then 3 else 1

/-- The value of a hexadecimal digit. -/
def digitByte (b : Byte) : Byte := if b ≤ byte '9' then b - byte '0' else b - byte 'a' + 10

/-- The byte a folded word stands for. -/
def decodeWord : List Byte → Byte
  | [b] => b
  | [_, b] => b - 32
  | [_, hi, lo] => digitByte hi * 16 + digitByte lo
  | _ => 0

theorem decodeWord_encodeByte : ∀ b : Byte, decodeWord (foldName (encodeByte b)) = b := by decide +kernel

theorem length_encodeByte : ∀ b : Byte,
    (foldName (encodeByte b)).head?.map wordLength = some (foldName (encodeByte b)).length := by decide +kernel

theorem dot_encodeByte : ∀ b : Byte, byte '.' ∉ foldName (encodeByte b) := by decide +kernel

theorem prefixCode_encodeByte : PrefixCode fun b => foldName (encodeByte b) :=
  prefixCode_of_length wordLength (Function.LeftInverse.injective decodeWord_encodeByte) length_encodeByte

theorem foldName_append (m n : FileName) : foldName (m ++ n) = foldName m ++ foldName n := List.map_append

theorem foldName_encode (s : String) : foldName (encode s) = (utf8 s).flatMap fun b => foldName (encodeByte b) := by
  unfold foldName encode
  rw [List.map_flatMap]

theorem utf8_injective : Function.Injective utf8 := by
  intro s t h
  have hbytes : s.toList.flatMap String.utf8EncodeChar = t.toList.flatMap String.utf8EncodeChar := by
    refine List.map_injective_iff.mpr (fun x y hxy => ?_) h
    exact UInt8.toFin_inj.mp hxy
  have hencode : s.toList.utf8Encode = t.toList.utf8Encode := by
    unfold List.utf8Encode
    rw [hbytes]
  rw [String.utf8Encode_toList, String.utf8Encode_toList] at hencode
  exact String.toByteArray_inj.mp hencode

/-- **An encoded part gives its text back**, whatever became of its letters'
cases. -/
theorem encode_fold_injective : Function.Injective fun s => foldName (encode s) := by
  intro s t h
  simp only [foldName_encode] at h
  exact utf8_injective (prefixCode_encodeByte.flatMap_injective h)

/-- No dot is inside an encoded part. -/
theorem dot_encode (s : String) : byte '.' ∉ foldName (encode s) := by
  rw [foldName_encode, List.mem_flatMap]
  rintro ⟨b, -, hb⟩
  exact dot_encodeByte b hb

theorem dot_take_encode (s : String) (n : ℕ) : byte '.' ∉ foldName ((encode s).take n) := by
  unfold foldName
  rw [List.map_take]
  exact fun h => dot_encode s (List.mem_of_mem_take h)

/-! ### The parts -/

/-- The hash a shortened name keeps. -/
def nameHash (p : String × String) : ℕ := fnv1a64 (utf8 p.1 ++ 255 :: utf8 p.2)

/-- A pair whose full name would be too long. -/
def Shortened (p : String × String) : Prop :=
  maxFullName < (encode p.1 ++ byte '.' :: encode p.2 ++ ascii ".json").length

instance (p : String × String) : Decidable (Shortened p) := inferInstanceAs (Decidable (_ < _))

/-- What follows the owner and the name. -/
def nameTail (p : String × String) : FileName :=
  if Shortened p then hex16 (nameHash p) ++ byte '.' :: ascii "json" else ascii "json"

/-- The part of an owner or a name that its pair's file keeps. -/
def keptPart (p : String × String) (s : String) : FileName := if Shortened p then (encode s).take shortPart else encode s

/-- **A canonical name is the owner, the name and the rest**, between dots. -/
theorem collectorPath_eq (p : String × String) : collectorPath p.1 p.2 =
    keptPart p p.1 ++ byte '.' :: (keptPart p p.2 ++ byte '.' :: nameTail p) := by
  have hjson : ascii ".json" = byte '.' :: ascii "json" := rfl
  unfold collectorPath keptPart nameTail
  dsimp only
  by_cases h : Shortened p
  · have hlong : ¬ (encode p.1 ++ byte '.' :: encode p.2 ++ ascii ".json").length ≤ maxFullName := Nat.not_le.mpr h
    rw [if_neg hlong, if_pos h, if_pos h, if_pos h, hjson]
    simp [nameHash]
  · have hshort : (encode p.1 ++ byte '.' :: encode p.2 ++ ascii ".json").length ≤ maxFullName := Nat.not_lt.mp h
    rw [if_pos hshort, if_neg h, if_neg h, if_neg h, hjson]
    simp

theorem dot_keptPart (p : String × String) (s : String) : byte '.' ∉ foldName (keptPart p s) := by
  unfold keptPart
  split
  · exact dot_take_encode s _
  · exact dot_encode s

/-! ### The hash -/

theorem hexDigit_inj : ∀ m < 16, ∀ n < 16, foldByte (hexDigit m) = foldByte (hexDigit n) → m = n := by decide +kernel

theorem fnv1a64_lt (bytes : List Byte) : fnv1a64 bytes < 2 ^ 64 := by
  unfold fnv1a64
  induction bytes using List.reverseRecOn with
  | nil => decide
  | append_singleton bytes b ih =>
    rw [List.foldl_append, List.foldl_cons, List.foldl_nil]
    exact Nat.mod_lt _ (by decide)

theorem length_hex16 (n : ℕ) : (foldName (hex16 n)).length = 16 := by simp [foldName, hex16]

/-- Sixteen digits are one word of 64 bits. -/
theorem hex16_inj {m n : ℕ} (hm : m < 2 ^ 64) (hn : n < 2 ^ 64) (h : foldName (hex16 m) = foldName (hex16 n)) :
    m = n := by
  refine @eq_of_digits 16 (by decide) 16 m n (by simpa using hm) (by simpa using hn) fun i hi => ?_
  unfold foldName hex16 at h
  rw [List.map_map, List.map_map] at h
  have hdigit := List.map_inj_left.mp h (15 - i) (List.mem_range.mpr (by omega))
  have hback : 15 - (15 - i) = i := by omega
  simp only [Function.comp, hback] at hdigit
  exact hexDigit_inj _ (Nat.mod_lt _ (by decide)) _ (Nat.mod_lt _ (by decide)) hdigit

/-! ### No two names are one -/

theorem foldName_cons_dot (n : FileName) : foldName (byte '.' :: n) = byte '.' :: foldName n := rfl

/-- Two names of three parts are one when their parts are. -/
theorem parts_inj {p q : String × String} {r s : FileName}
    (h : foldName (keptPart p p.1 ++ byte '.' :: (keptPart p p.2 ++ byte '.' :: r)) =
      foldName (keptPart q q.1 ++ byte '.' :: (keptPart q q.2 ++ byte '.' :: s))) :
    foldName (keptPart p p.1) = foldName (keptPart q q.1) ∧ foldName (keptPart p p.2) = foldName (keptPart q q.2) ∧
      foldName r = foldName s := by
  simp only [foldName_append, foldName_cons_dot] at h
  obtain ⟨howner, hrest⟩ := append_sep_inj (dot_keptPart _ _) (dot_keptPart _ _) h
  obtain ⟨hname, htail⟩ := append_sep_inj (dot_keptPart _ _) (dot_keptPart _ _) hrest
  exact ⟨howner, hname, htail⟩

theorem length_nameTail (p : String × String) : (foldName (nameTail p)).length = if Shortened p then 21 else 4 := by
  unfold nameTail
  split
  · rw [foldName_append, List.length_append, length_hex16]
    rfl
  · rfl

/-- **Names that are one, letters' cases aside, are one pair's**, or hide two
pairs under one hash. -/
theorem pair_of_collectorPath {p q : String × String}
    (h : foldName (collectorPath p.1 p.2) = foldName (collectorPath q.1 q.2)) :
    p = q ∨ Shortened p ∧ Shortened q ∧ nameHash p = nameHash q := by
  rw [collectorPath_eq, collectorPath_eq] at h
  obtain ⟨howner, hname, htail⟩ := parts_inj h
  have hlen := congrArg List.length htail
  rw [length_nameTail, length_nameTail] at hlen
  by_cases hp : Shortened p
  · have hq : Shortened q := by
      by_contra hq
      rw [if_pos hp, if_neg hq] at hlen
      omega
    unfold nameTail at htail
    rw [if_pos hp, if_pos hq, foldName_append, foldName_append] at htail
    exact .inr ⟨hp, hq, hex16_inj (fnv1a64_lt _) (fnv1a64_lt _) (List.append_cancel_right htail)⟩
  · have hq : ¬ Shortened q := by
      intro hq
      rw [if_neg hp, if_pos hq] at hlen
      omega
    unfold keptPart at howner hname
    rw [if_neg hp, if_neg hq] at howner hname
    exact .inl (Prod.ext (encode_fold_injective howner) (encode_fold_injective hname))

/-! ### Staging -/

/-- What follows the owner and the name in a staging name. -/
def stagingTail (p : String × String) : FileName :=
  if Shortened p then hex16 (nameHash p) ++ byte '.' :: ascii "moving.json" else ascii "moving.json"

theorem fileStem_append {before after : FileName} (hb : before ≠ []) (h : byte '.' ∉ after) :
    fileStem (before ++ byte '.' :: after) = before := by
  unfold fileStem
  rw [splitAtLastDot_append before h]
  exact if_neg hb

/-- **A staging name is a canonical one's parts before `moving.json`.** -/
theorem stagingPath_eq (p : String × String) : stagingPath (collectorPath p.1 p.2) =
    keptPart p p.1 ++ byte '.' :: (keptPart p p.2 ++ byte '.' :: stagingTail p) := by
  have hmoving : ascii ".moving.json" = byte '.' :: ascii "moving.json" := rfl
  have hjson : byte '.' ∉ ascii "json" := by decide
  unfold stagingPath
  rw [collectorPath_eq, hmoving]
  unfold nameTail stagingTail
  by_cases h : Shortened p
  · have hstem := @fileStem_append
      (keptPart p p.1 ++ byte '.' :: (keptPart p p.2 ++ byte '.' :: hex16 (nameHash p))) _ (by simp) hjson
    rw [if_pos h, if_pos h]
    simp only [List.append_assoc, List.cons_append] at hstem ⊢
    rw [hstem]
    simp
  · have hstem := @fileStem_append (keptPart p p.1 ++ byte '.' :: keptPart p p.2) _ (by simp) hjson
    rw [if_neg h, if_neg h]
    simp only [List.append_assoc, List.cons_append] at hstem ⊢
    rw [hstem]
    simp

theorem length_stagingTail (p : String × String) :
    (foldName (stagingTail p)).length = if Shortened p then 28 else 11 := by
  unfold stagingTail
  split
  · rw [foldName_append, List.length_append, length_hex16]
    rfl
  · rfl

/-- A staging name ends in another number of letters than a canonical one. -/
theorem staging_ne_canonical (p q : String × String) :
    foldName (stagingPath (collectorPath p.1 p.2)) ≠ foldName (collectorPath q.1 q.2) := by
  intro h
  rw [stagingPath_eq, collectorPath_eq] at h
  have hlen := congrArg List.length (parts_inj h).2.2
  rw [length_stagingTail, length_nameTail] at hlen
  split_ifs at hlen <;> omega

/-- **No two collectors share a file**, on a file system that tells letter
cases apart or on one that does not; and no file is staged under a name that is
some collector's own. -/
theorem collector_files_apart {p q : String × String} (hne : p ≠ q)
    (hhash : Shortened p → Shortened q → nameHash p ≠ nameHash q) :
    collectorPath p.1 p.2 ≠ collectorPath q.1 q.2 ∧
      foldName (collectorPath p.1 p.2) ≠ foldName (collectorPath q.1 q.2) ∧
      ∀ r s : String × String, stagingPath (collectorPath r.1 r.2) ≠ collectorPath s.1 s.2 ∧
        foldName (stagingPath (collectorPath r.1 r.2)) ≠ foldName (collectorPath s.1 s.2) := by
  have hfold : foldName (collectorPath p.1 p.2) ≠ foldName (collectorPath q.1 q.2) := by
    intro h
    rcases pair_of_collectorPath h with heq | ⟨hp, hq, heq⟩
    · exact hne heq
    · exact hhash hp hq heq
  exact ⟨fun h => hfold (congrArg foldName h), hfold,
    fun r s => ⟨fun h => staging_ne_canonical r s (congrArg foldName h), staging_ne_canonical r s⟩⟩

/-- Two collectors of one owner, in capitals and not. -/
theorem cased_files_apart : foldName (collectorPath "s" "Perf") ≠ foldName (collectorPath "s" "perf") :=
  (@collector_files_apart ("s", "Perf") ("s", "perf") (by decide) fun h => absurd h (by decide)).2.1

end Logmon
