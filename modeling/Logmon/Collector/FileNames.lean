/-
# The names of collector files

`collector/persist.rs`: where a collector's file lives, where it is staged on
its way there, and where a file is set aside. A name is a list of bytes, as
the file system has it; the standard library's `extension` and `file_stem`
split it at its last dot.

The canonical and the staging names are `.json` names, so the next boot reads
them. A name that a file is set aside under is not, whatever the file was
called, and those for one file are all different.

Key definitions: `collectorPath`, `stagingPath`, `asideName`, `isJson`.
Key theorems: `isJson_collectorPath`, `isJson_stagingPath`,
`not_isJson_asideName`, `asideName_injective`.
-/
import Logmon.Lib.Text
import Mathlib.Data.List.Lex
import Mathlib.Data.Fin.Basic
import Mathlib.Order.Fin.Basic

namespace Logmon

open Lib

abbrev Byte : Type := Fin 256

instance byteNeZero : NeZero 256 := ⟨by decide⟩

abbrev FileName : Type := List Byte

/-- The byte of an ASCII character. -/
def byte (c : Char) : Byte := Fin.ofNat 256 c.toNat

def ascii (s : String) : FileName := s.toList.map byte

def utf8 (s : String) : List Byte := (s.toList.flatMap String.utf8EncodeChar).map UInt8.toFin

/-! ### The last dot -/

/-- What stands before the last dot, and what after it. -/
def splitAtLastDot (n : FileName) : Option (FileName × FileName) :=
  match n.reverse.dropWhile (fun b => b ≠ byte '.') with
  | [] => none
  | _ :: before => some (before.reverse, (n.reverse.takeWhile fun b => b ≠ byte '.').reverse)

/-- `Path::extension`. A name that starts with its only dot has none. -/
def extension (n : FileName) : Option FileName :=
  match splitAtLastDot n with
  | none => none
  | some (before, after) => if before = [] then none else some after

/-- `Path::file_stem`. -/
def fileStem (n : FileName) : FileName :=
  match splitAtLastDot n with
  | none => n
  | some (before, _) => if before = [] then n else before

def isJson (n : FileName) : Bool := extension n = some (ascii "json")

theorem splitAtLastDot_append (before : FileName) {after : FileName} (h : byte '.' ∉ after) :
    splitAtLastDot (before ++ byte '.' :: after) = some (before, after) := by
  have hall : ∀ b ∈ after.reverse, decide (b ≠ byte '.') = true := by
    intro b hb
    rw [List.mem_reverse] at hb
    exact decide_eq_true fun he => h (he ▸ hb)
  have hrev : (before ++ byte '.' :: after).reverse = after.reverse ++ byte '.' :: before.reverse := by simp
  have hdrop : (before ++ byte '.' :: after).reverse.dropWhile (fun b => b ≠ byte '.') = byte '.' :: before.reverse := by
    rw [hrev, List.dropWhile_append_of_pos hall, List.dropWhile_cons_of_neg (by simp)]
  have htake : (before ++ byte '.' :: after).reverse.takeWhile (fun b => b ≠ byte '.') = after.reverse := by
    rw [hrev, List.takeWhile_append_of_pos hall, List.takeWhile_cons_of_neg (by simp), List.append_nil]
  unfold splitAtLastDot
  rw [hdrop, htake]
  simp

theorem extension_append {before after : FileName} (hb : before ≠ []) (h : byte '.' ∉ after) :
    extension (before ++ byte '.' :: after) = some after := by
  unfold extension
  rw [splitAtLastDot_append before h]
  exact if_neg hb

theorem not_isJson_append (before : FileName) {after : FileName} (h : byte '.' ∉ after) (hj : after ≠ ascii "json") :
    isJson (before ++ byte '.' :: after) = false := by
  unfold isJson extension
  rw [splitAtLastDot_append before h]
  dsimp only
  split
  · rfl
  · simpa using hj

/-! ### Where a collector's file lives -/

def hexDigit (n : ℕ) : Byte := byte (Nat.digitChar n)

/-- Keep `[a-z0-9_-]`; write an uppercase letter as `^` and the letter in
lowercase; write every other byte as `%XX`. -/
def encodeByte (b : Byte) : FileName :=
  if byte 'a' ≤ b ∧ b ≤ byte 'z' ∨ byte '0' ≤ b ∧ b ≤ byte '9' ∨ b = byte '-' ∨ b = byte '_' then [b]
  else if byte 'A' ≤ b ∧ b ≤ byte 'Z' then [byte '^', b + 32]
  else [byte '%', byte (Nat.digitChar (b.val / 16)).toUpper, byte (Nat.digitChar (b.val % 16)).toUpper]

def encode (s : String) : FileName := (utf8 s).flatMap encodeByte

/-- FNV-1a, 64-bit. -/
def fnv1a64 (bytes : List Byte) : ℕ :=
  bytes.foldl (fun h b => (h ^^^ b.val) * 0x100000001b3 % 2 ^ 64) 0xcbf29ce484222325

/-- The longest `{owner}.{name}.json` used as is. -/
def maxFullName : ℕ := 200

/-- How much of each encoded part a shortened name keeps. -/
def shortPart : ℕ := 80

/-- Sixteen hex digits. -/
def hex16 (n : ℕ) : FileName := (List.range 16).map fun i => hexDigit (n / 16 ^ (15 - i) % 16)

/-- `{owner}.{name}.json`, or a shortened name with a hash. -/
def collectorPath (owner name : String) : FileName :=
  let full := encode owner ++ byte '.' :: encode name ++ ascii ".json"
  if full.length ≤ maxFullName then full
  else
    (encode owner).take shortPart ++ byte '.' :: (encode name).take shortPart ++
      byte '.' :: hex16 (fnv1a64 (utf8 owner ++ 255 :: utf8 name)) ++ ascii ".json"

/-- Where a file is staged on its way to its canonical name. -/
def stagingPath (canonical : FileName) : FileName := fileStem canonical ++ ascii ".moving.json"

theorem isJson_append {n : FileName} (h : n ≠ []) : isJson (n ++ ascii ".json") = true := by
  have hdot : ascii ".json" = byte '.' :: ascii "json" := rfl
  unfold isJson
  rw [hdot, extension_append h (by decide)]
  exact decide_eq_true rfl

theorem isJson_collectorPath (owner name : String) : isJson (collectorPath owner name) = true := by
  unfold collectorPath
  dsimp only
  split
  · exact isJson_append (by simp)
  · exact isJson_append (by simp)

theorem isJson_stagingPath (canonical : FileName) : isJson (stagingPath canonical) = true := by
  have hsplit : stagingPath canonical = (fileStem canonical ++ ascii ".moving") ++ ascii ".json" := by
    unfold stagingPath
    rw [List.append_assoc]
    rfl
  rw [hsplit]
  exact isJson_append (by simp [ascii])

/-! ### Where a file is set aside -/

def decimalName (n : ℕ) : FileName := ascii (toString n)

/-- `<path>.<suffix>`, then `<path>.<suffix>.N`. -/
def asideName (path : FileName) (suffix : String) : ℕ → FileName
  | 0 => path ++ byte '.' :: ascii suffix
  | n + 1 => path ++ byte '.' :: ascii suffix ++ byte '.' :: decimalName (n + 1)

/-- A digit's byte is the digit's. -/
theorem char_of_byte {c : Char} (h : c.isDigit = true) : Char.ofNat (byte c).val = c := by
  have hlt : c.toNat < 256 := by
    simp only [Char.isDigit, Bool.and_eq_true, decide_eq_true_eq] at h
    have := h.2
    have hle : c.toNat ≤ 57 := this
    omega
  have hval : (byte c).val = c.toNat := Nat.mod_eq_of_lt hlt
  rw [hval, Char.ofNat_toNat]

theorem decimal_inj {m n : ℕ} (h : decimalName m = decimalName n) : m = n := by
  have hback : ∀ k : ℕ, (decimalName k).map (fun b => Char.ofNat b.val) = (toString k).toList := by
    intro k
    unfold decimalName ascii
    rw [List.map_map]
    refine (List.map_congr_left fun c hc => ?_).trans (List.map_id _)
    exact char_of_byte (isDigit_of_mem_toString hc)
  have hdigits : (toString m).toList = (toString n).toList := by rw [← hback, ← hback, h]
  simpa [Nat.toString_eq_ofList_toDigits] using congrArg (Nat.ofDigitChars 10 · 0) hdigits

theorem mem_decimal {n : ℕ} {b : Byte} (h : b ∈ decimalName n) : (Char.ofNat b.val).isDigit = true := by
  obtain ⟨c, hc, rfl⟩ := List.mem_map.mp h
  have hd := isDigit_of_mem_toString hc
  rw [char_of_byte hd]
  exact hd

/-- **No file is set aside under a `.json` name.** -/
theorem not_isJson_asideName (path : FileName) {suffix : String} (hdot : byte '.' ∉ ascii suffix)
    (hj : ascii suffix ≠ ascii "json") (i : ℕ) : isJson (asideName path suffix i) = false := by
  cases i with
  | zero => exact not_isJson_append path hdot hj
  | succ n =>
    refine not_isJson_append _ (fun h => ?_) fun h => ?_
    · exact absurd (mem_decimal h) (by decide)
    · have hmem : byte 'j' ∈ decimalName (n + 1) := by
        rw [h]
        exact List.mem_cons_self
      exact absurd (mem_decimal hmem) (by decide)

theorem asideName_injective (path : FileName) (suffix : String) : Function.Injective (asideName path suffix) := by
  intro m n h
  cases m with
  | zero =>
    cases n with
    | zero => rfl
    | succ n =>
      have := congrArg List.length h
      simp [asideName] at this
  | succ m =>
    cases n with
    | zero =>
      have := congrArg List.length h
      simp [asideName] at this
    | succ n =>
      have hdecimal : decimalName (m + 1) = decimalName (n + 1) := by simpa [asideName] using h
      exact decimal_inj hdecimal

end Logmon
