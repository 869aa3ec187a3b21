import Mathlib.Data.List.Lex
import Mathlib.Data.Multiset.Basic
import Mathlib.Data.String.Basic
import Mathlib.Tactic.Common
import Fingerprint.Proofs.Ascending
import Fingerprint.Token.Basic
/-!
# The order of texts

Texts are compared by their characters.  UTF-8 was made such that comparing the bytes gives the same
order: the encodings of two characters part at a byte, and the lower character has the lower byte
there.
-/

namespace Fingerprint

/-! ## Sorted texts -/

theorem textLe_trans (a b c : String) : textLe a b → textLe b c → textLe a c := by
  simpa [textLe] using le_trans

theorem textLe_total (a b : String) : textLe a b || textLe b a := by
  simpa [textLe] using le_total a b

theorem pairwise_sortTexts (texts : List String) : (sortTexts texts).Pairwise (· ≤ ·) := by
  have hpair : (sortTexts texts).Pairwise fun a b => textLe a b = true :=
    List.pairwise_mergeSort textLe_trans textLe_total texts
  exact hpair.imp fun hle => by simpa [textLe] using hle

theorem coe_sortTexts (texts : List String) : (sortTexts texts : Multiset String) = texts :=
  Multiset.coe_eq_coe.2 (List.mergeSort_perm _ _)

theorem sortTexts_eq_of_perm {texts texts' : List String} (h : texts.Perm texts') :
    sortTexts texts = sortTexts texts' :=
  Ascending.mergeSort_eq_of_perm textLe_trans textLe_total h
    fun a _ b _ hab hba => le_antisymm (by simpa [textLe] using hab) (by simpa [textLe] using hba)

theorem filter_sortTexts (p : String → Bool) (texts : List String) :
    (sortTexts texts).filter p = sortTexts (texts.filter p) :=
  Ascending.filter_mergeSort textLe_trans textLe_total p texts

/-! ## Bytes -/

namespace Text

def bytes (s : String) : List UInt8 := s.toUTF8.data.toList

theorem bytes_eq (s : String) : bytes s = s.toList.flatMap String.utf8EncodeChar := by
  unfold bytes
  rw [String.toUTF8_eq_toByteArray, ← String.utf8Encode_toList, List.utf8Encode]
  simp

/-- Two byte sequences part at a byte, and there the first one has the lower byte. -/
def Parts (a b : List UInt8) : Prop :=
  ∃ (common : List UInt8) (x y : UInt8) (restA restB : List UInt8),
    x < y ∧ a = common ++ x :: restA ∧ b = common ++ y :: restB

theorem parts_head {x y : UInt8} (h : x < y) (a b : List UInt8) : Parts (x :: a) (y :: b) :=
  ⟨[], x, y, a, b, h, rfl, rfl⟩

theorem Parts.cons (x : UInt8) {a b : List UInt8} (h : Parts a b) : Parts (x :: a) (x :: b) := by
  obtain ⟨common, y, z, restA, restB, hlt, rfl, rfl⟩ := h
  exact ⟨x :: common, y, z, restA, restB, hlt, rfl, rfl⟩

theorem Parts.append_lt {a b : List UInt8} (h : Parts a b) (u v : List UInt8) :
    a ++ u < b ++ v := by
  obtain ⟨common, x, y, restA, restB, hlt, rfl, rfl⟩ := h
  induction common with
  | nil => exact List.Lex.rel hlt
  | cons z common ih => exact List.Lex.cons ih

theorem byte_lt {m n : Nat} (hm : m < 256) (hn : n < 256) (h : m < n) :
    UInt8.ofNat m < UInt8.ofNat n := by
  rw [UInt8.lt_iff_toNat_lt, UInt8.toNat_ofNat_of_lt' hm, UInt8.toNat_ofNat_of_lt' hn]
  exact h

/-- Heads that are in order or equal with tails that part: the step through an encoding. -/
theorem parts_of_le {m n : Nat} (hm : m < 256) (hn : n < 256) {a b : List UInt8} (h : m ≤ n)
    (htail : m = n → Parts a b) : Parts (UInt8.ofNat m :: a) (UInt8.ofNat n :: b) := by
  rcases Nat.lt_or_eq_of_le h with hlt | rfl
  · exact parts_head (byte_lt hm hn hlt) a b
  · exact (htail rfl).cons _

theorem parts_utf8EncodeChar {c d : Char} (h : c < d) :
    Parts (String.utf8EncodeChar c) (String.utf8EncodeChar d) := by
  have hlt : c.val.toNat < d.val.toNat := h
  have hbound : ∀ e : Char, e.val.toNat < 0x110000 := fun e => by
    have := e.valid
    simp only [UInt32.isValidChar, Nat.isValidChar] at this
    omega
  have hc := hbound c
  have hd := hbound d
  unfold String.utf8EncodeChar
  generalize c.val.toNat = m at hlt hc
  generalize d.val.toNat = n at hlt hd
  dsimp only
  -- The lengths of the two encodings are told apart first, then they are read byte by byte.
  split_ifs <;> repeat' refine parts_of_le (by omega) (by omega) ?_ fun _ => ?_
  all_goals omega

theorem flatMap_lt_flatMap {a b : List Char} (h : a < b) :
    a.flatMap String.utf8EncodeChar < b.flatMap String.utf8EncodeChar := by
  induction h with
  | @nil c rest =>
    obtain ⟨x, later, hx⟩ := List.exists_cons_of_ne_nil (String.utf8EncodeChar_ne_nil (c := c))
    rw [List.flatMap_cons, hx]
    exact List.Lex.nil
  | @cons c rest rest' _ ih =>
    rw [List.flatMap_cons, List.flatMap_cons]
    generalize String.utf8EncodeChar c = common
    induction common with
    | nil => exact ih
    | cons x common ih' => exact List.Lex.cons ih'
  | rel hcd =>
    rw [List.flatMap_cons, List.flatMap_cons]
    exact (parts_utf8EncodeChar hcd).append_lt _ _

/-- **Texts are in the order of their bytes.** -/
theorem bytes_lt_bytes_iff {s t : String} : bytes s < bytes t ↔ s < t := by
  rw [bytes_eq, bytes_eq, String.lt_iff_toList_lt]
  refine ⟨fun h => ?_, flatMap_lt_flatMap⟩
  rcases lt_trichotomy s.toList t.toList with hlt | heq | hgt
  · exact hlt
  · rw [heq] at h
    exact absurd h (List.lt_irrefl _)
  · exact absurd h (List.lt_asymm (flatMap_lt_flatMap hgt))

theorem bytes_le_bytes_iff {s t : String} : bytes s ≤ bytes t ↔ s ≤ t := by
  rw [← String.not_lt, ← bytes_lt_bytes_iff]
  rfl

end Text

end Fingerprint
