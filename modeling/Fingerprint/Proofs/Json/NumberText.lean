import Mathlib.Data.List.TakeDrop
import Mathlib.Tactic.Common
import Fingerprint.Proofs.Json.Reader
/-!
# Texts of numbers

The parts of a number, put together, are taken apart into the same parts.
-/

namespace Fingerprint

namespace JsonNumber

def exponentText : Option (Bool × List Char) → List Char
  | none => []
  | some (negative, digits) => 'e' :: (if negative then '-' else '+') :: digits

def fractionText : List Char → List Char
  | [] => []
  | c :: digits => '.' :: c :: digits

def magnitudeText (n : JsonNumber) : List Char :=
  n.whole ++ (fractionText n.fraction ++ exponentText n.exponent)

def render (n : JsonNumber) : List Char :=
  if n.negative then '-' :: n.magnitudeText else n.magnitudeText

structure IsWritten (n : JsonNumber) : Prop where
  whole_digits : ∀ c ∈ n.whole, c.isDigit = true
  whole_ne_nil : n.whole ≠ []
  no_leading_zero : 1 < n.whole.length → n.whole.head? ≠ some '0'
  fraction_digits : ∀ c ∈ n.fraction, c.isDigit = true
  exponent_digits : ∀ negative digits, n.exponent = some (negative, digits) →
    digits ≠ [] ∧ ∀ c ∈ digits, c.isDigit = true
  isInteger_eq : n.isInteger = (n.fraction.isEmpty && n.exponent.isNone)

theorem spanDigits_append {digits rest : List Char} (hdigits : ∀ c ∈ digits, c.isDigit = true)
    (hrest : ∀ c ∈ rest.head?, c.isDigit = false) :
    Decimal.spanDigits (digits ++ rest) = (digits, rest) := by
  rw [Decimal.spanDigits, List.span_eq_takeWhile_dropWhile, List.takeWhile_append_of_pos hdigits,
    List.dropWhile_append_of_pos hdigits]
  cases rest with
  | nil => rw [List.takeWhile_nil, List.append_nil, List.dropWhile_nil]
  | cons c rest =>
    have hc := hrest c rfl
    rw [List.takeWhile_cons_of_neg (by simp [hc]), List.dropWhile_cons_of_neg (by simp [hc]),
      List.append_nil]

theorem isDigit_head_exponentText (exponent : Option (Bool × List Char)) :
    ∀ c ∈ (exponentText exponent).head?, c.isDigit = false := by
  intro c hc
  cases exponent with
  | none => cases hc
  | some e =>
    cases hc
    rfl

theorem isDigit_head_rest (fraction : List Char) (exponent : Option (Bool × List Char)) :
    ∀ c ∈ (fractionText fraction ++ exponentText exponent).head?, c.isDigit = false := by
  intro c hc
  cases fraction with
  | nil => exact isDigit_head_exponentText exponent c hc
  | cons d fraction =>
    cases hc
    rfl

theorem exponentOf?_exponentText {exponent : Option (Bool × List Char)}
    (h : ∀ negative digits, exponent = some (negative, digits) →
      digits ≠ [] ∧ ∀ c ∈ digits, c.isDigit = true) :
    exponentOf? (exponentText exponent) = some exponent := by
  cases exponent with
  | none => rfl
  | some e =>
    obtain ⟨negative, digits⟩ := e
    obtain ⟨hne, hdigits⟩ := h negative digits rfl
    have hsign : Decimal.takeSign ((if negative then '-' else '+') :: digits) =
        (negative, digits) := by
      cases negative <;> rfl
    rw [exponentText, exponentOf?, if_pos (.inl rfl), hsign]
    simp [hne]
    exact hdigits

namespace IsWritten

variable {n : JsonNumber}

theorem exists_digit (h : n.IsWritten) :
    ∃ c rest, n.magnitudeText = c :: rest ∧ c.isDigit = true := by
  obtain ⟨c, rest, hwhole⟩ := List.exists_cons_of_ne_nil h.whole_ne_nil
  refine ⟨c, rest ++ (fractionText n.fraction ++ exponentText n.exponent), ?_,
    h.whole_digits c (by rw [hwhole]; exact List.mem_cons_self)⟩
  rw [magnitudeText, hwhole, List.cons_append]

theorem ofMagnitude?_magnitudeText (h : n.IsWritten) :
    ofMagnitude? n.negative n.magnitudeText = some n := by
  have hspan : Decimal.spanDigits n.magnitudeText =
      (n.whole, fractionText n.fraction ++ exponentText n.exponent) :=
    spanDigits_append h.whole_digits (isDigit_head_rest n.fraction n.exponent)
  have hwhole : ¬(n.whole.isEmpty = true ∨ 1 < n.whole.length ∧ n.whole.head? = some '0') := by
    rintro (hempty | ⟨hlength, hhead⟩)
    · exact h.whole_ne_nil (List.isEmpty_iff.1 hempty)
    · exact h.no_leading_zero hlength hhead
  have hexponent := exponentOf?_exponentText h.exponent_digits
  have hinteger := h.isInteger_eq
  have hfraction := h.fraction_digits
  rw [ofMagnitude?, hspan]
  simp only [if_neg hwhole]
  obtain ⟨negative, whole, fraction, exponent, isInteger⟩ := n
  cases fraction with
  | nil =>
    cases exponent with
    | none =>
      simp only at hinteger
      rw [hinteger]
      rfl
    | some e =>
      simp only at hinteger hexponent
      rw [hinteger]
      exact congrArg (Option.map _) hexponent
  | cons d fraction =>
    have hfraction : Decimal.spanDigits (d :: fraction ++ exponentText exponent) =
        (d :: fraction, exponentText exponent) :=
      spanDigits_append hfraction (isDigit_head_exponentText exponent)
    simp only at hinteger hexponent
    simp only [fractionText, List.cons_append] at hfraction ⊢
    rw [hfraction]
    simp only [hexponent, hinteger]
    rfl

theorem ofText?_render (h : n.IsWritten) : ofText? n.render = some n := by
  have hread := h.ofMagnitude?_magnitudeText
  rw [render]
  cases hsign : n.negative with
  | true =>
    rw [hsign] at hread
    exact hread
  | false =>
    rw [hsign] at hread
    obtain ⟨c, rest, hmagnitude, hdigit⟩ := h.exists_digit
    rw [if_neg Bool.false_ne_true]
    rw [hmagnitude] at hread ⊢
    rw [ofText?, hread]
    rintro text heq
    cases heq
    cases hdigit

theorem isPart_magnitudeText (h : n.IsWritten) : ∀ c ∈ n.magnitudeText, isPart c = true := by
  have hdigit : ∀ c : Char, c.isDigit = true → isPart c = true := by
    intro c hc
    rw [isPart, hc, Bool.true_or]
  intro c hc
  rw [magnitudeText, List.mem_append, List.mem_append] at hc
  rcases hc with hc | hc | hc
  · exact hdigit c (h.whole_digits c hc)
  · cases hfraction : n.fraction with
    | nil =>
      rw [hfraction] at hc
      cases hc
    | cons d rest =>
      rw [hfraction, fractionText] at hc
      rcases List.mem_cons.1 hc with rfl | hc
      · decide
      · exact hdigit c (h.fraction_digits c (by rwa [hfraction]))
  · cases hexponent : n.exponent with
    | none =>
      rw [hexponent] at hc
      cases hc
    | some e =>
      obtain ⟨negative, digits⟩ := e
      rw [hexponent, exponentText] at hc
      rcases List.mem_cons.1 hc with rfl | hc
      · decide
      · rcases List.mem_cons.1 hc with rfl | hc
        · cases negative <;> decide
        · exact hdigit c ((h.exponent_digits negative digits hexponent).2 c hc)

theorem readsAs (h : n.IsWritten) : Document.ReadsAs n.render (.number n) := by
  have hread := h.ofText?_render
  have hparts := h.isPart_magnitudeText
  obtain ⟨c, rest, hmagnitude, hdigit⟩ := h.exists_digit
  rw [render] at hread ⊢
  cases hsign : n.negative with
  | true =>
    rw [hsign] at hread
    exact Document.ReadsAs.number (.inl rfl) hparts hread
  | false =>
    rw [hsign, if_neg Bool.false_ne_true] at hread
    rw [if_neg Bool.false_ne_true]
    rw [hmagnitude] at hread hparts ⊢
    exact Document.ReadsAs.number (.inr hdigit)
      (fun d hd => hparts d (List.mem_cons_of_mem _ hd)) hread

end IsWritten

end JsonNumber

end Fingerprint
