import Mathlib.Data.List.Forall2
import Mathlib.Data.List.Nodup
import Fingerprint.Proofs.Json.Reader
/-!
# Records that are read back

Texts, lists and records are read off the documents that they have been written as.
-/

namespace Fingerprint.Document

/-! ## Texts -/

theorem characters?_map_char (characters : List Char) :
    characters? (characters.map .char) = some characters := by
  induction characters with
  | nil => rfl
  | cons c rest ih => rw [List.map_cons, characters?, ih, Option.map_some]

@[simp] theorem string?_unitsOf (text : String) : string? (unitsOf text) = some text := by
  rw [string?, unitsOf, characters?_map_char, Option.map_some, String.ofList_toList]

/-! ## Lists -/

variable {α : Type}

theorem mapM_eq_some_iff {β : Type} {read : β → Option α} {documents : List β} {items : List α} :
    documents.mapM read = some items ↔
      List.Forall₂ (fun d a => read d = some a) documents items := by
  induction documents generalizing items with
  | nil => simp [eq_comm]
  | cons d rest ih =>
    rw [List.mapM_cons, List.forall₂_cons_left_iff]
    simp only [Option.bind_eq_bind, Option.bind_eq_some_iff, Option.pure_def, Option.some.injEq, ih]
    constructor
    · rintro ⟨a, ha, others, hothers, rfl⟩
      exact ⟨a, others, ha, hothers, rfl⟩
    · rintro ⟨a, others, ha, hothers, rfl⟩
      exact ⟨a, ha, others, hothers, rfl⟩

theorem list?_eq_some_iff {read : Document → Option α} {documents : List Document}
    {items : List α} :
    list? read (.array documents) = some items ↔
      List.Forall₂ (fun d a => read d = some a) documents items :=
  mapM_eq_some_iff

theorem list?_map {read : Document → Option α} {write : α → Document} {items : List α}
    (h : ∀ a ∈ items, read (write a) = some a) :
    list? read (.array (items.map write)) = some items := by
  rw [list?_eq_some_iff, List.forall₂_map_left_iff, List.forall₂_same]
  exact h

/-! ## Records -/

def fieldsOf (fields : List (String × Document)) : Document :=
  .object (fields.map fun f => (unitsOf f.1, f.2))

@[simp] theorem fields?_fieldsOf (fields : List (String × Document)) :
    (fieldsOf fields).fields? = some fields := by
  rw [fieldsOf, fields?, mapM_eq_some_iff, List.forall₂_map_left_iff, List.forall₂_same]
  intro f hf
  simp only [string?_unitsOf, Option.map_some]

theorem filter_name_eq {fields : List (String × Document)} (h : (fields.map Prod.fst).Nodup) :
    ∀ f ∈ fields, fields.filter (·.1 == f.1) = [f] := by
  induction fields with
  | nil => exact List.forall_mem_nil _
  | cons g rest ih =>
    rw [List.map_cons, List.nodup_cons] at h
    obtain ⟨hfresh, hrest⟩ := h
    have hdiffer : ∀ f ∈ rest, g.1 ≠ f.1 := by
      intro f hf heq
      exact hfresh (heq ▸ List.mem_map_of_mem hf)
    rw [List.forall_mem_cons]
    constructor
    · have hnone : rest.filter (·.1 == g.1) = [] := by
        rw [List.filter_eq_nil_iff]
        intro f hf
        rw [beq_iff_eq]
        exact (hdiffer f hf).symm
      rw [List.filter_cons_of_pos (by simp), hnone]
    · intro f hf
      rw [List.filter_cons_of_neg (by simpa using hdiffer f hf)]
      exact ih hrest f hf

/-- A record gets the values of its fields in order. -/
theorem record?_fieldsOf {names : List String} {fields : List (String × Document)}
    (hnames : fields.map Prod.fst = names) (h : names.Nodup) :
    record? names (fieldsOf fields) = some (fields.map fun f => some f.2) := by
  subst hnames
  rw [record?, fields?_fieldsOf, Option.bind_some, List.mapM_map, mapM_eq_some_iff,
    List.forall₂_map_right_iff, List.forall₂_same]
  · intro f hf
    simp only [Function.comp_apply, filter_name_eq h f hf]
  · intro items heq
    cases heq

/-! ## Readable documents -/

theorem areReadable_eq_all (depth : Nat) (items : List Document) :
    areReadable depth items = items.all (isReadable depth) := by
  induction items with
  | nil => rfl
  | cons item rest ih => rw [areReadable, ih, List.all_cons]

theorem isReadable_array_map {α : Type} (depth : Nat) (items : List α) (write : α → Document) :
    isReadable (depth + 1) (.array (items.map write)) =
      items.all fun a => (write a).isReadable depth := by
  rw [isReadable, areReadable_eq_all, List.all_map, decide_eq_true (Nat.succ_pos depth),
    Bool.true_and, Nat.add_sub_cancel]
  rfl

theorem fieldsReadable_map (depth : Nat) (fields : List (String × Document)) :
    fieldsReadable depth (fields.map fun f => (unitsOf f.1, f.2)) =
      fields.all fun f => f.2.isReadable depth := by
  induction fields with
  | nil => rfl
  | cons f rest ih =>
    rw [List.map_cons, fieldsReadable, ih, List.all_cons, unitsOf, characters?_map_char]
    rfl

theorem isReadable_fieldsOf (depth : Nat) (fields : List (String × Document)) :
    (fieldsOf fields).isReadable (depth + 1) = fields.all fun f => f.2.isReadable depth := by
  rw [fieldsOf, isReadable, Nat.add_sub_cancel, fieldsReadable_map,
    decide_eq_true (Nat.succ_pos depth), Bool.true_and]

theorem isReadable_unitsOf (depth : Nat) (text : String) :
    (Document.text (unitsOf text)).isReadable depth = true := by
  rw [isReadable, unitsOf, characters?_map_char]
  rfl

theorem isReadable_of_number? {d : Document} {value : JsonNumber.Value}
    (h : d.number? = some value) (depth : Nat) : d.isReadable depth = true := by
  cases d with
  | number n =>
    rw [number?] at h
    rw [isReadable, h]
    rfl
  | _ => cases h

theorem isReadable_of_double? {d : Document} {x : Double} (h : d.double? = some x) (depth : Nat) :
    d.isReadable depth = true := by
  obtain ⟨value, hvalue, -⟩ := Option.map_eq_some_iff.1 h
  exact isReadable_of_number? hvalue depth

end Fingerprint.Document
