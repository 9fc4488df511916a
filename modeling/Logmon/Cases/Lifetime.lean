/-
# Lifetimes, from text to verdict

A fact's lifetime comes in as a literal, is kept as seconds and is held against
the whole seconds since the fact was last confirmed. The literal is split one
byte before its end, which panics inside a longer character; the comparison
casts the seconds to a signed number, which turns the largest negative. Short
of the two, a text is read as the literal it is, rendered seconds read back,
and a fact expires exactly with its lifetime (`lifetimes_exact_iff`).

Key definitions: `ParsesExactly`, `elapsedSecs`, `ExpiresExactly`.
Key theorems: `isExpired_iff`, `lifetimes_exact_iff`.
-/
import Logmon.Cases.Create

namespace Logmon
namespace Cases

open Lib DomainData

/-- Reading the text does not panic, and accepts it exactly as the literal it
is. -/
def ParsesExactly (s : String) : Prop :=
  ∃ result, DomainData.parseDuration s = some result ∧ ∀ secs, result = .ok secs ↔ Literal s secs

theorem parsesExactly_iff (s : String) : ParsesExactly s ↔ ∀ c, s.toList.getLast? = some c → c.utf8Size = 1 := by
  constructor
  · rintro ⟨result, hresult, -⟩ c hc
    by_contra hsize
    have hnone : DomainData.parseDuration s = none :=
      (parseDuration_eq_none_iff s).mpr ⟨c, hc, by have := c.utf8Size_pos; omega⟩
    rw [hnone] at hresult
    simp at hresult
  · intro h
    cases hresult : DomainData.parseDuration s with
    | none =>
      obtain ⟨c, hc, hsize⟩ := (parseDuration_eq_none_iff s).mp hresult
      have := h c hc
      omega
    | some result => exact ⟨result, hresult, parseDuration_iff hresult⟩

/-- The whole seconds since the fact was last confirmed. -/
def elapsedSecs (now : ℤ) (e : DomainData.Entry) : ℤ := (now - e.validatedAt).tdiv 1000000000

/-- The verdict is that of the lifetime. -/
def ExpiresExactly (now : ℤ) (e : DomainData.Entry) (ttl : ℕ) : Prop := isExpired now e = some (decide ((ttl : ℤ) ≤ elapsedSecs now e))

/-- **The verdict**: a lifetime past `i64::MAX` is judged 2⁶⁴ seconds short. -/
theorem isExpired_iff {e : DomainData.Entry} {ttl : ℕ} (httl : e.ttlSecs = some ttl) (hle : ttl ≤ u64Max) (now : ℤ) :
    ExpiresExactly now e ttl ↔
      ttl < 2 ^ 63 ∨ elapsedSecs now e < (ttl : ℤ) - 2 ^ 64 ∨ (ttl : ℤ) ≤ elapsedSecs now e := by
  have hcode : isExpired now e =
      some (decide ((if (ttl : ℤ) < 2 ^ 63 then (ttl : ℤ) else ttl - 2 ^ 64) ≤ elapsedSecs now e)) := by
    unfold isExpired
    rw [httl]
    rfl
  rw [ExpiresExactly, hcode, Option.some.injEq, decide_eq_decide]
  have hmax : (ttl : ℤ) < 2 ^ 64 := by
    have : ttl < 2 ^ 64 := Nat.lt_of_le_of_lt hle (by decide)
    omega
  by_cases hsmall : ttl < 2 ^ 63
  · rw [if_pos (by omega)]
    exact iff_of_true Iff.rfl (.inl hsmall)
  · rw [if_neg (by omega)]
    omega

/-- **Lifetimes are exact exactly where** the text's last character is one byte
and the seconds fit a signed number, or the elapsed time is on the same side of
the cast value. -/
theorem lifetimes_exact_iff (text : String) :
    (ParsesExactly text ↔ ∀ c, text.toList.getLast? = some c → c.utf8Size = 1) ∧
    (∀ secs, 1 ≤ secs → secs ≤ u64Max → DomainData.parseDuration (renderDuration secs) = some (.ok secs)) ∧
    ∀ ttl, DomainData.parseDuration text = some (.ok ttl) → ∀ (e : DomainData.Entry) (now : ℤ), e.ttlSecs = some ttl →
      (ExpiresExactly now e ttl ↔
        ttl < 2 ^ 63 ∨ elapsedSecs now e < (ttl : ℤ) - 2 ^ 64 ∨ (ttl : ℤ) ≤ elapsedSecs now e) := by
  refine ⟨parsesExactly_iff text, fun secs hpos hle => parseDuration_render hpos hle, fun ttl htext e now httl => ?_⟩
  obtain ⟨_, _, _, _, _, _, _, _, _, hle⟩ := (parseDuration_iff htext ttl).mp rfl
  exact isExpired_iff httl hle now

/-- A fact just confirmed, with a lifetime. -/
def factFor (ttl : ℕ) : DomainData.Entry := ⟨"v", 0, 0, some ttl⟩

theorem lifetimes_exact_iff_days : ParsesExactly "7d" ∧
    DomainData.parseDuration (renderDuration 604800) = some (.ok 604800) ∧
    ExpiresExactly 604800000000000 (factFor 604800) 604800 := by
  obtain ⟨hreads, hrendered, -⟩ := lifetimes_exact_iff "7d"
  obtain ⟨-, -, hexpires⟩ := lifetimes_exact_iff (renderDuration 604800)
  refine ⟨hreads.mpr fun c hc => ?_, hrendered 604800 (by decide) (by decide),
    (hexpires 604800 (parseDuration_render (by decide) (by decide)) (factFor 604800) 604800000000000 rfl).mpr
      (.inl (by decide))⟩
  obtain rfl : 'd' = c := Option.some.inj hc
  decide

/-- A text that ends in a character of two bytes panics, and a lifetime past
`i64::MAX` has expired as soon as it is set. -/
theorem lifetimes_inexact : DomainData.parseDuration "5é" = none ∧ ¬ ParsesExactly "5é" ∧
    DomainData.parseDuration "9223372036854775808s" = some (.ok 9223372036854775808) ∧
    isExpired 0 (factFor 9223372036854775808) = some true ∧
    ¬ ExpiresExactly 0 (factFor 9223372036854775808) 9223372036854775808 := by
  refine ⟨by decide, fun ⟨result, hresult, _⟩ => ?_, by decide, by decide, by unfold ExpiresExactly; decide⟩
  have hnone : DomainData.parseDuration "5é" = none := by decide
  rw [hnone] at hresult
  simp at hresult

end Cases
end Logmon
