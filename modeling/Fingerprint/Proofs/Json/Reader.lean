import Mathlib.Tactic.Common
import Fingerprint.Json.Document
import Fingerprint.Json.Value
/-!
# Runs of the reader

The reader takes one character after another.  Here is what runs of it make of the texts of strings,
numbers, arrays and objects.  A text reads as a document if the reader gets from the place where a
value has to follow to the place behind that value, whatever is open around it.
-/

namespace Fingerprint.Document

namespace State

def run (state : State) (text : List Char) : Option State := text.foldlM step state

@[simp] theorem run_nil (state : State) : run state [] = some state := rfl

theorem run_cons (state : State) (c : Char) (text : List Char) :
    run state (c :: text) = (step state c).bind (run · text) := rfl

theorem run_append (state : State) (text rest : List Char) :
    run state (text ++ rest) = (run state text).bind (run · rest) :=
  List.foldlM_append

/-! ## After a value -/

/-- What closes or goes on with an array or object, of which no part is one of a number. -/
def isSeparator (c : Char) : Bool := c = ',' || c = ']' || c = '\x7d'

/-- A state in which a value has ended, or will have when the number that is being read does. -/
def Settles (state ended : State) : Prop :=
  state = ended ∨ ∃ characters stack, state = ⟨.number characters, stack⟩ ∧
    endNumber characters stack = some ended

theorem settles_self (state : State) : Settles state state := .inl rfl

theorem step_of_settles {state ended : State} (h : Settles state ended)
    (hmode : ended.mode = .after) {c : Char} (hc : isSeparator c = true) :
    step state c = next c ended := by
  rcases h with rfl | ⟨characters, stack, rfl, hended⟩
  · rw [step, hmode]
  · have hpart : JsonNumber.isPart c = false := by
      simp only [isSeparator, Bool.or_eq_true, decide_eq_true_iff] at hc
      rcases hc with (rfl | rfl) | rfl <;> decide
    rw [step]
    simp only [hpart, Bool.false_eq_true, if_false, hended, Option.bind_some]

theorem finish_of_settles {state : State} {d : Document} (h : Settles state (close d [])) :
    finish state = some d := by
  rcases h with rfl | ⟨characters, stack, rfl, hended⟩
  · rfl
  · rw [finish]
    simp only [hended, Option.bind_some]
    rfl

end State

open State

/-- A text is read as a document, whatever is open around it. -/
def ReadsAs (text : List Char) (d : Document) : Prop :=
  ∃ c rest, text = c :: rest ∧ isBlank c = false ∧ c ≠ ']' ∧
    ∀ stack, ∃ state, (start c stack).bind (run · rest) = some state ∧ Settles state (close d stack)

namespace ReadsAs

variable {text : List Char} {d : Document}

theorem run_value (h : ReadsAs text d) (stack : List Frame) :
    ∃ state, run ⟨.value, stack⟩ text = some state ∧ Settles state (close d stack) := by
  obtain ⟨c, rest, rfl, hblank, -, hread⟩ := h
  rw [run_cons, step]
  simp only [hblank, Bool.false_eq_true, if_false]
  exact hread stack

theorem run_firstItem (h : ReadsAs text d) (more : List Char) (stack : List Frame) :
    run ⟨.firstItem, stack⟩ (text ++ more) = run ⟨.value, stack⟩ (text ++ more) := by
  obtain ⟨c, rest, rfl, hblank, hend, -⟩ := h
  rw [List.cons_append, run_cons, run_cons, step, step]
  simp only [hblank, hend, Bool.false_eq_true, if_false]

theorem run_item (h : ReadsAs text d) (items : List Document) (stack : List Frame) {c : Char}
    (hc : isSeparator c = true) (rest : List Char) :
    run ⟨.value, .array items :: stack⟩ (text ++ c :: rest) =
      (next c ⟨.after, .array (d :: items) :: stack⟩).bind (run · rest) := by
  obtain ⟨state, hstate, hsettles⟩ := h.run_value (.array items :: stack)
  rw [run_append, hstate, Option.bind_some, run_cons, step_of_settles hsettles rfl hc]
  rfl

theorem run_member (h : ReadsAs text d) (fields : List (List StringUnit × Document))
    (key : List StringUnit) (stack : List Frame) {c : Char} (hc : isSeparator c = true)
    (rest : List Char) :
    run ⟨.value, .member fields key :: stack⟩ (text ++ c :: rest) =
      (next c ⟨.after, .object ((key, d) :: fields) :: stack⟩).bind (run · rest) := by
  obtain ⟨state, hstate, hsettles⟩ := h.run_value (.member fields key :: stack)
  rw [run_append, hstate, Option.bind_some, run_cons, step_of_settles hsettles rfl hc]
  rfl

theorem ofText? {text : String} (h : ReadsAs text.toList d) : Document.ofText? text = some d := by
  obtain ⟨state, hstate, hsettles⟩ := h.run_value []
  change (run ⟨.value, []⟩ text.toList).bind finish = some d
  rw [hstate, Option.bind_some, finish_of_settles hsettles]

end ReadsAs

/-! ## Arrays and objects -/

theorem run_items (items : List (List Char × Document)) (hne : items ≠ [])
    (hitems : ∀ item ∈ items, ReadsAs item.1 item.2) :
    ∀ (read : List Document) (stack : List Frame),
      run ⟨.value, .array read :: stack⟩
          ((List.intercalate [','] (items.map Prod.fst)) ++ [']']) =
        some (close (.array (read.reverse ++ items.map Prod.snd)) stack) := by
  induction items with
  | nil => exact absurd rfl hne
  | cons item rest ih =>
    intro read stack
    have hitem := hitems item List.mem_cons_self
    cases rest with
    | nil =>
      rw [List.map_singleton, List.intercalate_singleton, hitem.run_item read stack (by decide)]
      simp [next, shut, isBlank]
    | cons second rest =>
      have hrest := ih (List.cons_ne_nil _ _)
        (fun item h => hitems item (List.mem_cons_of_mem _ h)) (item.2 :: read) stack
      have hnext : next ',' ⟨.after, .array (item.2 :: read) :: stack⟩ =
          some ⟨.value, .array (item.2 :: read) :: stack⟩ := rfl
      rw [List.map_cons, List.map_cons, List.intercalate_cons_cons, List.append_assoc,
        List.append_assoc, List.singleton_append, hitem.run_item read stack (by decide), hnext,
        Option.bind_some]
      rw [List.map_cons] at hrest
      rw [hrest]
      simp

theorem exists_intercalate_cons {α : Type} (separator first : List α) (rest : List (List α)) :
    ∃ more, List.intercalate separator (first :: rest) = first ++ more := by
  cases rest with
  | nil => exact ⟨[], by rw [List.intercalate_singleton, List.append_nil]⟩
  | cons second rest =>
    exact ⟨_, by rw [List.intercalate_cons_cons, List.append_assoc]⟩

theorem ReadsAs.array (items : List (List Char × Document))
    (hitems : ∀ item ∈ items, ReadsAs item.1 item.2) :
    ReadsAs ('[' :: (List.intercalate [','] (items.map Prod.fst) ++ [']']))
      (.array (items.map Prod.snd)) := by
  refine ⟨'[', _, rfl, rfl, by decide, fun stack => ?_⟩
  have hstart : start '[' stack = some ⟨.firstItem, .array [] :: stack⟩ := rfl
  refine ⟨_, ?_, settles_self _⟩
  rw [hstart, Option.bind_some]
  cases items with
  | nil => rfl
  | cons item rest =>
    have hread := run_items (item :: rest) (List.cons_ne_nil _ _) hitems [] stack
    obtain ⟨more, hmore⟩ := exists_intercalate_cons [','] item.1 (rest.map Prod.fst)
    rw [List.map_cons, hmore, List.append_assoc] at hread ⊢
    rw [(hitems item List.mem_cons_self).run_firstItem, hread, List.reverse_nil, List.nil_append]

/-! ## Strings -/

theorem hexDigit?_digitChar {n : Nat} (hn : n < 16) : hexDigit? (Nat.digitChar n) = some n := by
  have hall : ∀ n < 16, hexDigit? (Nat.digitChar n) = some n := by decide
  exact hall n hn

theorem run_hexByte {n : Nat} (hn : n < 32) (isKey : Bool) (units : List StringUnit)
    (stack : List Frame) :
    run ⟨.string isKey units, stack⟩ ("\\u00" ++ Json.hexByte n).toList =
      some ⟨.string isKey (.char (Char.ofNat n) :: units), stack⟩ := by
  have htext : ("\\u00" ++ Json.hexByte n).toList =
      ['\\', 'u', '0', '0', Nat.digitChar (n / 16), Nat.digitChar (n % 16)] := by
    rw [Json.hexByte, String.toList_append, String.toList_ofList, String.toList_ofList]
    rfl
  have hmark : run ⟨.string isKey units, stack⟩ ['\\', 'u', '0', '0'] =
      some ⟨.unicode isKey units 2 0, stack⟩ := rfl
  have hunit : unitOf n = .char (Char.ofNat n) := by
    rw [unitOf, if_neg]
    omega
  rw [htext, show ['\\', 'u', '0', '0', Nat.digitChar (n / 16), Nat.digitChar (n % 16)] =
    ['\\', 'u', '0', '0'] ++ [Nat.digitChar (n / 16), Nat.digitChar (n % 16)] from rfl, run_append,
    hmark, Option.bind_some, run_cons, step]
  simp only [hexDigit?_digitChar (show n / 16 < 16 by omega), Option.map_some, Option.bind_some,
    show ¬(2 ≤ 1) by omega, if_false]
  rw [run_cons, step]
  simp only [hexDigit?_digitChar (show n % 16 < 16 by omega), Option.map_some, Option.bind_some,
    show 2 - 1 ≤ 1 by omega, if_true, run_nil]
  rw [show 16 * (16 * 0 + n / 16) + n % 16 = n by omega, hunit]

theorem run_escape (c : Char) (isKey : Bool) (units : List StringUnit) (stack : List Frame) :
    run ⟨.string isKey units, stack⟩ (Json.escape c).toList =
      some ⟨.string isKey (.char c :: units), stack⟩ := by
  have hcode : ∀ n, c.toNat = n → c = Char.ofNat n := by
    rintro n rfl
    exact (Char.ofNat_toNat c).symm
  rw [Json.escape]
  split_ifs with hquote hslash h8 h9 h10 h12 h13 hcontrol
  · rw [hquote]
    rfl
  · rw [hslash]
    rfl
  · rw [hcode 8 h8]
    rfl
  · rw [hcode 9 h9]
    rfl
  · rw [hcode 10 h10]
    rfl
  · rw [hcode 12 h12]
    rfl
  · rw [hcode 13 h13]
    rfl
  · rw [run_hexByte hcontrol, Char.ofNat_toNat]
  · have htext : c.toString.toList = [c] := by simp
    rw [htext, run_cons, step]
    simp only [hquote, hslash, hcontrol, if_false, Option.bind_some, run_nil]

/-- The characters of a quoted text are read up to the closing mark. -/
theorem run_escaped (characters : List Char) (isKey : Bool) (stack : List Frame)
    (rest : List Char) :
    ∀ units, run ⟨.string isKey units, stack⟩
        (characters.flatMap (fun c => (Json.escape c).toList) ++ '"' :: rest) =
      (closeString isKey ((characters.map .char).reverse ++ units) stack).bind (run · rest) := by
  induction characters with
  | nil =>
    intro units
    rw [List.flatMap_nil, List.nil_append, run_cons, step]
    simp
  | cons c characters ih =>
    intro units
    rw [List.flatMap_cons, List.append_assoc, run_append, run_escape, Option.bind_some, ih]
    simp

def unitsOf (text : String) : List StringUnit := text.toList.map .char

theorem toList_quote (text : String) :
    (Json.quote text).toList =
      '"' :: (text.toList.flatMap (fun c => (Json.escape c).toList) ++ ['"']) := by
  rw [Json.quote, String.toList_append, String.toList_append, String.toList_join,
    List.flatMap_map]
  rfl

theorem ReadsAs.quote (text : String) :
    ReadsAs (Json.quote text).toList (.text (unitsOf text)) := by
  refine ⟨'"', _, toList_quote text, rfl, by decide, fun stack => ?_⟩
  have hstart : start '"' stack = some ⟨.string false [], stack⟩ := rfl
  refine ⟨_, ?_, settles_self _⟩
  rw [hstart, Option.bind_some, run_escaped, List.append_nil]
  simp [closeString, unitsOf]

theorem run_key (text : String) (fields : List (List StringUnit × Document)) (stack : List Frame)
    (rest : List Char) (mode : Mode) (hmode : mode = .key ∨ mode = .firstKey) :
    run ⟨mode, .object fields :: stack⟩ ((Json.quote text).toList ++ ':' :: rest) =
      run ⟨.value, .member fields (unitsOf text) :: stack⟩ rest := by
  have hstart : step ⟨mode, .object fields :: stack⟩ '"' =
      some ⟨.string true [], .object fields :: stack⟩ := by
    rcases hmode with rfl | rfl <;> rfl
  rw [toList_quote, List.cons_append, List.append_assoc, List.singleton_append, run_cons, hstart,
    Option.bind_some, run_escaped, List.append_nil, closeString, if_pos rfl]
  simp only [List.reverse_reverse, Option.bind_some]
  rfl

/-! ## Objects -/

structure FieldText where
  key : String
  text : List Char
  value : Document

namespace FieldText

def toList (f : FieldText) : List Char := (Json.quote f.key).toList ++ ':' :: f.text

def field (f : FieldText) : List StringUnit × Document := (unitsOf f.key, f.value)

end FieldText

theorem run_field {f : FieldText} (h : ReadsAs f.text f.value)
    (fields : List (List StringUnit × Document)) (stack : List Frame) (mode : Mode)
    (hmode : mode = .key ∨ mode = .firstKey) {c : Char} (hc : isSeparator c = true)
    (rest : List Char) :
    run ⟨mode, .object fields :: stack⟩ (f.toList ++ c :: rest) =
      (next c ⟨.after, .object (f.field :: fields) :: stack⟩).bind (run · rest) := by
  rw [FieldText.toList, List.append_assoc, List.cons_append,
    run_key f.key fields stack _ mode hmode, h.run_member fields _ stack hc rest]
  rfl

theorem run_fields (texts : List FieldText) (hne : texts ≠ [])
    (htexts : ∀ f ∈ texts, ReadsAs f.text f.value) :
    ∀ (fields : List (List StringUnit × Document)) (stack : List Frame) (mode : Mode),
      mode = .key ∨ mode = .firstKey →
        run ⟨mode, .object fields :: stack⟩
            (List.intercalate [','] (texts.map FieldText.toList) ++ ['\x7d']) =
          some (close (.object (fields.reverse ++ texts.map FieldText.field)) stack) := by
  induction texts with
  | nil => exact absurd rfl hne
  | cons f rest ih =>
    intro fields stack mode hmode
    have hfield := htexts f List.mem_cons_self
    cases rest with
    | nil =>
      rw [List.map_singleton, List.intercalate_singleton,
        run_field hfield fields stack mode hmode (by decide)]
      simp [next, shut, isBlank]
    | cons second rest =>
      have hrest := ih (List.cons_ne_nil _ _)
        (fun f h => htexts f (List.mem_cons_of_mem _ h)) (f.field :: fields) stack .key (.inl rfl)
      have hnext : next ',' ⟨.after, .object (f.field :: fields) :: stack⟩ =
          some ⟨.key, .object (f.field :: fields) :: stack⟩ := rfl
      rw [List.map_cons, List.map_cons, List.intercalate_cons_cons, List.append_assoc,
        List.append_assoc, List.singleton_append,
        run_field hfield fields stack mode hmode (by decide), hnext, Option.bind_some]
      rw [List.map_cons] at hrest
      rw [hrest]
      simp

theorem ReadsAs.object (texts : List FieldText)
    (htexts : ∀ f ∈ texts, ReadsAs f.text f.value) :
    ReadsAs ('\x7b' :: (List.intercalate [','] (texts.map FieldText.toList) ++ ['\x7d']))
      (.object (texts.map FieldText.field)) := by
  refine ⟨'\x7b', _, rfl, rfl, by decide, fun stack => ?_⟩
  have hstart : start '\x7b' stack = some ⟨.firstKey, .object [] :: stack⟩ := rfl
  refine ⟨_, ?_, settles_self _⟩
  rw [hstart, Option.bind_some]
  cases texts with
  | nil => rfl
  | cons f rest =>
    rw [run_fields (f :: rest) (List.cons_ne_nil _ _) htexts [] stack .firstKey (.inr rfl)]
    rfl

/-! ## Numbers -/

theorem start_number {c : Char} (hc : c = '-' ∨ c.isDigit = true) :
    isBlank c = false ∧ c ≠ ']' ∧ ∀ stack, start c stack = some ⟨.number [c], stack⟩ := by
  have hne : ∀ d : Char, d ≠ '-' → d.isDigit = false → c ≠ d := by
    rintro d hminus hdigit rfl
    rcases hc with rfl | hc
    · exact hminus rfl
    · rw [hdigit] at hc
      cases hc
  have hblank : isBlank c = false := by
    simp only [isBlank, Bool.or_eq_false_iff, decide_eq_false_iff_not]
    exact ⟨⟨⟨hne _ (by decide) (by decide), hne _ (by decide) (by decide)⟩,
      hne _ (by decide) (by decide)⟩, hne _ (by decide) (by decide)⟩
  refine ⟨hblank, hne _ (by decide) (by decide), fun stack => ?_⟩
  rw [start, if_neg (hne _ (by decide) (by decide)), if_neg (hne _ (by decide) (by decide)),
    if_neg (hne _ (by decide) (by decide)), if_pos hc]

theorem ReadsAs.number {c : Char} {rest : List Char} {n : JsonNumber}
    (hc : c = '-' ∨ c.isDigit = true) (hparts : ∀ d ∈ rest, JsonNumber.isPart d = true)
    (h : JsonNumber.ofText? (c :: rest) = some n) : ReadsAs (c :: rest) (.number n) := by
  have hrun : ∀ (rest : List Char) (stack : List Frame), (∀ d ∈ rest, JsonNumber.isPart d = true) →
      ∀ read, run ⟨.number read, stack⟩ rest = some ⟨.number (rest.reverse ++ read), stack⟩ := by
    intro rest stack
    induction rest with
    | nil => exact fun _ _ => rfl
    | cons d rest ih =>
      intro hparts read
      have hd := hparts d List.mem_cons_self
      rw [run_cons, step]
      simp only [hd, if_true, Option.bind_some]
      rw [ih fun d hd => hparts d (List.mem_cons_of_mem _ hd)]
      simp
  obtain ⟨hblank, hend, hstart⟩ := start_number hc
  refine ⟨c, rest, rfl, hblank, hend, fun stack => ?_⟩
  refine ⟨_, by rw [hstart, Option.bind_some, hrun rest stack hparts], .inr ⟨_, _, rfl, ?_⟩⟩
  rw [endNumber, List.reverse_append, List.reverse_reverse, List.reverse_singleton,
    List.singleton_append, h]
  rfl

end Fingerprint.Document
