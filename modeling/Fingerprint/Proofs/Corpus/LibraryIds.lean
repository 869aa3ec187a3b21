import Mathlib.Tactic.Common
import Fingerprint.Corpus.LibraryId
/-!
# Library ids and their texts

A text is an id just when something stands on both sides of its last at sign, and then it is the
text of that id.  Only the last at sign separates, so names may hold any number of them.
-/

namespace Fingerprint.LibraryId

/-! ## The last at sign -/

theorem splitLast?_of_not_mem {text : List Char} (h : '@' ∉ text) : splitLast? text = none := by
  induction text with
  | nil => rfl
  | cons c rest ih =>
    rw [List.mem_cons, not_or] at h
    rw [splitLast?, ih h.2]
    exact if_neg (Ne.symm h.1)

/-- A text is split where no further at sign follows. -/
theorem splitLast?_append (before : List Char) {after : List Char} (h : '@' ∉ after) :
    splitLast? (before ++ '@' :: after) = some (before, after) := by
  induction before with
  | nil =>
    rw [List.nil_append, splitLast?, splitLast?_of_not_mem h]
    exact if_pos rfl
  | cons c before ih => rw [List.cons_append, splitLast?, ih]

theorem exists_last_of_mem {text : List Char} (h : '@' ∈ text) :
    ∃ before after, text = before ++ '@' :: after ∧ '@' ∉ after := by
  obtain ⟨after, before, hreverse, hafter⟩ := List.eq_append_cons_of_mem (List.mem_reverse.2 h)
  refine ⟨before.reverse, after.reverse, ?_, by rwa [List.mem_reverse]⟩
  rw [← List.reverse_reverse text, hreverse]
  simp

theorem splitLast?_eq_some_iff {text before after : List Char} :
    splitLast? text = some (before, after) ↔ text = before ++ '@' :: after ∧ '@' ∉ after := by
  constructor
  · intro h
    have hmem : '@' ∈ text := by
      by_contra hnone
      rw [splitLast?_of_not_mem hnone] at h
      cases h
    obtain ⟨front, back, rfl, hback⟩ := exists_last_of_mem hmem
    rw [splitLast?_append front hback] at h
    cases h
    exact ⟨rfl, hback⟩
  · rintro ⟨rfl, hafter⟩
    exact splitLast?_append before hafter

/-! ## Ids -/

theorem toList_text (id : LibraryId) :
    id.text.toList = id.name.toList ++ '@' :: id.version.toList := by
  rw [text, String.toList_append, String.toList_append, List.append_assoc]
  rfl

/-- An id is read from its own text and from no other, unless a part of it is empty or its version
holds an at sign. -/
theorem ofText?_eq_some_iff {text : String} {id : LibraryId} :
    ofText? text = some id ↔
      text = id.text ∧ id.name ≠ "" ∧ id.version ≠ "" ∧ '@' ∉ id.version.toList := by
  have hempty : ∀ characters : List Char, characters.isEmpty = true ↔
      String.ofList characters = "" := by
    intro characters
    rw [List.isEmpty_iff, ← String.toList_inj, String.toList_ofList]
    rfl
  constructor
  · intro h
    rw [ofText?] at h
    split at h
    · rename_i before after hsplit
      obtain ⟨htext, hafter⟩ := splitLast?_eq_some_iff.1 hsplit
      simp only [hempty] at h
      split at h
      · cases h
      · rename_i hparts
        obtain ⟨hname, hversion⟩ := not_or.1 hparts
        cases h
        refine ⟨?_, hname, hversion, by rwa [String.toList_ofList]⟩
        rw [← String.toList_inj, toList_text, htext, String.toList_ofList, String.toList_ofList]
    · cases h
  · rintro ⟨rfl, hname, hversion, hat⟩
    rw [ofText?, toList_text, splitLast?_append _ hat]
    simp only [hempty, String.ofList_toList, hname, hversion, or_self, if_false]

/-- **Ids and their texts determine each other.**  A text is read as an id just when something
stands before and after its last at sign; the id read has that text, and an id is read back from its
text if neither part is empty and no at sign is in its version.  So texts that are read as the same
id are the same. -/
theorem ofText?_text :
    (∀ s : String, (∃ id, ofText? s = some id) ↔
      ∃ before after, s = before ++ "@" ++ after ∧ '@' ∉ after.toList ∧
        before ≠ "" ∧ after ≠ "") ∧
    (∀ s id, ofText? s = some id → id.text = s) ∧
    (∀ id : LibraryId, id.name ≠ "" → id.version ≠ "" → '@' ∉ id.version.toList →
      ofText? id.text = some id) ∧
    ∀ s t id id', ofText? s = some id → ofText? t = some id' → s ≠ t → id ≠ id' := by
  refine ⟨fun s => ?_, ?_, ?_, ?_⟩
  · constructor
    · rintro ⟨id, h⟩
      obtain ⟨htext, hname, hversion, hat⟩ := ofText?_eq_some_iff.1 h
      exact ⟨id.name, id.version, htext, hat, hname, hversion⟩
    · rintro ⟨before, after, hs, hat, hbefore, hafter⟩
      exact ⟨⟨before, after⟩, ofText?_eq_some_iff.2 ⟨hs, hbefore, hafter, hat⟩⟩
  · intro s id h
    exact (ofText?_eq_some_iff.1 h).1.symm
  · intro id hname hversion hat
    exact ofText?_eq_some_iff.2 ⟨rfl, hname, hversion, hat⟩
  · rintro s t id _ hs ht hne rfl
    exact hne ((ofText?_eq_some_iff.1 hs).1.trans (ofText?_eq_some_iff.1 ht).1.symm)

/-- The name of a package in a scope holds an at sign and a slash. -/
theorem ofText?_text_scoped :
    (⟨"@scope/pkg", "1.0.0"⟩ : LibraryId).name ≠ "" ∧
      ofText? "@scope/pkg@1.0.0" = some ⟨"@scope/pkg", "1.0.0"⟩ :=
  ⟨by decide, ofText?_text.2.2.1 ⟨"@scope/pkg", "1.0.0"⟩ (by decide) (by decide) (by decide)⟩

end Fingerprint.LibraryId
