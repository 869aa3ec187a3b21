import Fingerprint.Literal.Numeral
import Fingerprint.Proofs.Double.Decimal
import Fingerprint.Proofs.Double.Digits
/-!
# Spellings of numbers

The grammar of number literals, with what each of them says, and what is read for them.
-/

namespace Fingerprint.Numeral

open Double

/-- What a numeral says: a decimal, or the digits of a number in the radix `2 ^ bits`. -/
inductive Form where
  | decimal (d : Decimal)
  | places (bits : Nat) (digits : List Nat)

def total (bits : Nat) (digits : List Nat) : Nat :=
  digits.foldl (fun n d => twoPow bits * n + d) 0

/-- The number without the digits after its first 53 bits. -/
def leading (bits : Nat) (digits : List Nat) : Nat := digits.foldl (addDigit (twoPow bits)) 0

def Form.value : Form → ℚ
  | decimal d => d.value
  | places bits digits => total bits digits

def marks : List (Char × Nat) := [('x', 4), ('o', 3), ('b', 1)]

def AreDigits (text : List Char) : Prop := ∀ c ∈ text, c.isDigit = true

instance (text : List Char) : Decidable (AreDigits text) :=
  decidable_of_iff (text.all Char.isDigit = true) List.all_eq_true

inductive SpellsPower : List Char → Int → Prop
  | none : SpellsPower [] 0
  | unsigned {digits : List Char} (hne : digits ≠ []) (hdigits : AreDigits digits) :
      SpellsPower ('e' :: digits) (Decimal.ofDigits digits)
  | plus {digits : List Char} (hne : digits ≠ []) (hdigits : AreDigits digits) :
      SpellsPower ('e' :: '+' :: digits) (Decimal.ofDigits digits)
  | minus {digits : List Char} (hne : digits ≠ []) (hdigits : AreDigits digits) :
      SpellsPower ('e' :: '-' :: digits) (-(Decimal.ofDigits digits : Int))

/-- The texts of numerals, in lower case and without separators.  A whole number that starts with a
zero is octal, unless it has a digit that is none of the octal ones. -/
inductive Spells : List Char → Form → Prop
  | marked {mark : Char} {bits : Nat} {text : List Char} {digits : List Nat}
      (hmark : (mark, bits) ∈ marks) (hne : digits ≠ [])
      (hdigits : text.map (digit? (twoPow bits)) = digits.map some) :
      Spells ('0' :: mark :: text) (.places bits digits)
  | octal {text : List Char} {digits : List Nat} (hne : digits ≠ [])
      (hdigits : text.map (digit? 8) = digits.map some) :
      Spells ('0' :: text) (.places 3 digits)
  | whole {whole power : List Char} {exponent : Int} (hne : whole ≠ [])
      (hdigits : AreDigits whole) (hpower : SpellsPower power exponent)
      (hdecimal : whole = ['0'] ∨ whole.head? ≠ some '0' ∨ ∃ c ∈ whole, digit? 8 c = Option.none) :
      Spells (whole ++ power) (.decimal ⟨Decimal.ofDigits whole, exponent⟩)
  | point {whole fraction power : List Char} {exponent : Int} (hne : whole ++ fraction ≠ [])
      (hdigits : AreDigits (whole ++ fraction)) (hpower : SpellsPower power exponent) :
      Spells (whole ++ '.' :: (fraction ++ power))
        (.decimal ⟨Decimal.ofDigits (whole ++ fraction), exponent - fraction.length⟩)

def plain (text : String) : List Char := (text.toList.filter (· != '_')).map Char.toLower

/-! ## Digits of a radix -/

theorem digit?_lt {radix d : Nat} {c : Char} (h : digit? radix c = some d) : d < radix :=
  of_decide_eq_true (Option.filter_eq_some_iff.1 h).2

theorem forall_lt_of_digits {radix : Nat} {text : List Char} {digits : List Nat}
    (h : text.map (digit? radix) = digits.map some) : ∀ d ∈ digits, d < radix := by
  intro d hd
  have hmem : some d ∈ text.map (digit? radix) := h ▸ List.mem_map_of_mem hd
  obtain ⟨c, -, hc⟩ := List.mem_map.1 hmem
  exact digit?_lt hc

theorem exists_digit_of_mem {radix : Nat} {text : List Char} {digits : List Nat}
    (h : text.map (digit? radix) = digits.map some) {c : Char} (hc : c ∈ text) :
    ∃ d, digit? radix c = some d := by
  have hmem : digit? radix c ∈ digits.map some := h ▸ List.mem_map_of_mem hc
  obtain ⟨d, -, hd⟩ := List.mem_map.1 hmem
  exact ⟨d, hd.symm⟩

theorem foldlM_digits {radix : Nat} {text : List Char} {digits : List Nat}
    (h : text.map (digit? radix) = digits.map some) (value : Double) :
    text.foldlM (fun value c => (digit? radix c).map fun d => value * .ofNat radix + .ofNat d)
        value =
      some (digits.foldl (fun value d => value * .ofNat radix + .ofNat d) value) := by
  induction text generalizing digits value with
  | nil =>
    cases digits with
    | nil => rfl
    | cons d digits => cases h
  | cons c text ih =>
    cases digits with
    | nil => cases h
    | cons d digits =>
      rw [List.map_cons, List.map_cons, List.cons.injEq] at h
      rw [List.foldlM_cons, h.1]
      exact ih h.2 _

theorem zero_eq_ofNat : Double.zero = .ofNat 0 := (ofRatio_zero Nat.one_pos).symm

theorem ofRadix?_of_digits {bits : Nat} (hbits : bits ≤ 53) {text : List Char} {digits : List Nat}
    (hne : digits ≠ []) (h : text.map (digit? (twoPow bits)) = digits.map some) :
    ofRadix? (twoPow bits) text = some (.ofNat (leading bits digits)) := by
  have htext : text.isEmpty = false := by
    rw [List.isEmpty_eq_false_iff]
    rintro rfl
    exact hne (List.map_eq_nil_iff.1 h.symm)
  rw [ofRadix?, htext, if_neg Bool.false_ne_true, foldlM_digits h, zero_eq_ofNat,
    foldl_ofNat hbits (forall_lt_of_digits h), leading]

/-! ## Marks -/

theorem mem_of_afterMark? {mark : Char} {text digits : List Char}
    (h : afterMark? mark text = some digits) : mark ∈ text := by
  rw [afterMark?.eq_def] at h
  split at h
  · split at h
    · rename_i hmark
      rw [hmark]
      exact List.mem_cons_of_mem _ List.mem_cons_self
    · cases h
  · cases h

theorem afterMark?_eq_none {mark : Char} {text : List Char} (h : mark ∉ text) :
    afterMark? mark text = none :=
  Option.eq_none_iff_forall_ne_some.2 fun _ hsome => h (mem_of_afterMark? hsome)

theorem mem_marks_iff {mark : Char} {bits : Nat} :
    (mark, bits) ∈ marks ↔
      mark = 'x' ∧ bits = 4 ∨ mark = 'o' ∧ bits = 3 ∨ mark = 'b' ∧ bits = 1 := by
  simp only [marks, List.mem_cons, Prod.mk.injEq, List.not_mem_nil, or_false]

theorem read?_marked {mark : Char} {bits : Nat} (hmark : (mark, bits) ∈ marks) {text : List Char}
    {digits : List Nat} (hne : digits ≠ [])
    (hdigits : text.map (digit? (twoPow bits)) = digits.map some) :
    read? ('0' :: mark :: text) = some (.ofNat (leading bits digits)) := by
  rw [mem_marks_iff] at hmark
  have hsum := ofRadix?_of_digits (by omega) hne hdigits
  rcases hmark with ⟨rfl, rfl⟩ | ⟨rfl, rfl⟩ | ⟨rfl, rfl⟩
  · change (ofRadix? (twoPow 4) text <|> _) = _
    rw [hsum]
    rfl
  · change (none <|> ofRadix? (twoPow 3) text <|> _) = _
    rw [hsum]
    rfl
  · change (none <|> none <|> ofRadix? (twoPow 1) text <|> _) = _
    rw [hsum]
    rfl

theorem read?_of_not_marked {text : List Char} (hmarks : ∀ mark ∈ ['x', 'o', 'b'], mark ∉ text) :
    read? text = (legacyOctal? text <|> Double.ofText? text) := by
  have hmark : ∀ mark ∈ ['x', 'o', 'b'], afterMark? mark text = none := fun mark hmark =>
    afterMark?_eq_none (hmarks mark hmark)
  simp only [List.forall_mem_cons, List.not_mem_nil, false_implies, implies_true, and_true] at hmark
  simp only [read?, hmark, Option.bind_none]
  rfl

theorem read?_octal {text : List Char} {digits : List Nat} (hne : digits ≠ [])
    (hdigits : text.map (digit? 8) = digits.map some) :
    read? ('0' :: text) = some (.ofNat (leading 3 digits)) := by
  have hmarks : ∀ mark ∈ ['x', 'o', 'b'], mark ∉ '0' :: text := by
    intro mark hmark hmem
    have hnone : ['x', 'o', 'b'].all (fun mark => mark != '0' && (digit? 8 mark).isNone) = true :=
      rfl
    have hmark := List.all_eq_true.1 hnone mark hmark
    rw [Bool.and_eq_true, bne_iff_ne, Option.isNone_iff_eq_none] at hmark
    rcases List.mem_cons.1 hmem with heq | hmem
    · exact hmark.1 heq
    · obtain ⟨d, hd⟩ := exists_digit_of_mem hdigits hmem
      rw [hmark.2] at hd
      cases hd
  have hsum : ofRadix? 8 text = some (.ofNat (leading 3 digits)) :=
    @ofRadix?_of_digits 3 (by omega) text digits hne hdigits
  have hall : text.all (fun d => (digit? 8 d).isSome) = true := by
    rw [List.all_eq_true]
    intro c hc
    obtain ⟨d, hd⟩ := exists_digit_of_mem hdigits hc
    rw [hd, Option.isSome_some]
  cases text with
  | nil => exact absurd (List.map_eq_nil_iff.1 hdigits.symm) hne
  | cons c rest =>
    rw [read?_of_not_marked hmarks, legacyOctal?, if_pos hall, hsum]
    rfl

/-! ## Decimals -/

def isDecimalPart (c : Char) : Bool := c.isDigit || ['.', 'e', '+', '-'].contains c

theorem isDecimalPart_of_isDigit {c : Char} (h : c.isDigit = true) : isDecimalPart c = true := by
  rw [isDecimalPart, h, Bool.true_or]

theorem SpellsPower.isDecimalPart {text : List Char} {power : Int} (h : SpellsPower text power) :
    ∀ c ∈ text, isDecimalPart c = true := by
  cases h with
  | none => exact fun _ hc => nomatch hc
  | unsigned hne hdigits =>
    rw [List.forall_mem_cons]
    exact ⟨rfl, fun c hc => isDecimalPart_of_isDigit (hdigits c hc)⟩
  | plus hne hdigits | minus hne hdigits =>
    rw [List.forall_mem_cons, List.forall_mem_cons]
    exact ⟨rfl, rfl, fun c hc => isDecimalPart_of_isDigit (hdigits c hc)⟩

theorem SpellsPower.isDigit_head {text : List Char} {power : Int} (h : SpellsPower text power) :
    ∀ c ∈ text.head?, c.isDigit = false := by
  cases h with
  | none => exact fun _ hc => nomatch hc
  | unsigned | plus | minus =>
    rintro _ ⟨⟩
    rfl

theorem spanDigits_of_areDigits {digits : List Char} (h : AreDigits digits) :
    Decimal.spanDigits digits = (digits, []) := by
  have hspan : Decimal.spanDigits (digits ++ []) = (digits, []) :=
    JsonNumber.spanDigits_append h fun _ hc => nomatch hc
  rwa [List.append_nil] at hspan

theorem takeSign_of_isDigit {c : Char} (h : c.isDigit = true) (rest : List Char) :
    Decimal.takeSign (c :: rest) = (false, c :: rest) := by
  rw [Decimal.takeSign.eq_def]
  split
  · rename_i heq
    cases heq
    cases h
  · rename_i heq
    cases heq
    cases h
  · rfl

theorem exponent?_of_spells {text : List Char} {power : Int} (h : SpellsPower text power) :
    Decimal.exponent? text = some power := by
  cases h with
  | none => rfl
  | @unsigned digits hne hdigits =>
    obtain ⟨c, rest, rfl⟩ := List.exists_cons_of_ne_nil hne
    rw [Decimal.exponent?, if_pos (.inl rfl),
      takeSign_of_isDigit (hdigits c List.mem_cons_self)]
    simp only [spanDigits_of_areDigits hdigits]
    rfl
  | plus hne hdigits =>
    rw [Decimal.exponent?, if_pos (.inl rfl)]
    simp only [Decimal.takeSign, spanDigits_of_areDigits hdigits]
    simp [hne]
  | minus hne hdigits =>
    rw [Decimal.exponent?, if_pos (.inl rfl)]
    simp only [Decimal.takeSign, spanDigits_of_areDigits hdigits]
    simp [hne]

theorem ofText?_whole {whole power : List Char} {exponent : Int} (hne : whole ≠ [])
    (hdigits : AreDigits whole) (hpower : SpellsPower power exponent) :
    Decimal.ofText? (whole ++ power) = some ⟨Decimal.ofDigits whole, exponent⟩ := by
  have hexponent := exponent?_of_spells hpower
  rw [Decimal.ofText?, JsonNumber.spanDigits_append hdigits hpower.isDigit_head]
  cases hpower <;> simp [hexponent, hne]

theorem ofText?_point {whole fraction power : List Char} {exponent : Int}
    (hne : whole ++ fraction ≠ []) (hdigits : AreDigits (whole ++ fraction))
    (hpower : SpellsPower power exponent) :
    Decimal.ofText? (whole ++ '.' :: (fraction ++ power)) =
      some ⟨Decimal.ofDigits (whole ++ fraction), exponent - fraction.length⟩ := by
  obtain ⟨hwhole, hfraction⟩ := List.forall_mem_append.1 hdigits
  have hspan : Decimal.spanDigits (whole ++ '.' :: (fraction ++ power)) =
      (whole, '.' :: (fraction ++ power)) :=
    JsonNumber.spanDigits_append hwhole (by rintro _ ⟨⟩; rfl)
  have hspan' := JsonNumber.spanDigits_append hfraction hpower.isDigit_head
  have hexponent := exponent?_of_spells hpower
  have hsome : whole = [] → fraction ≠ [] := by
    rintro rfl
    exact hne
  simpa [Decimal.ofText?, hspan, hspan', hexponent] using hsome

/-- What starts with a digit or a point is neither signed nor one of the words. -/
theorem ofText?_of_head {c : Char} (hc : c.isDigit = true ∨ c = '.') (rest : List Char) :
    Double.ofText? (c :: rest) = (Decimal.ofText? (c :: rest)).map (·.toDouble false) := by
  have hsign : Decimal.takeSign (c :: rest) = (false, c :: rest) := by
    rcases hc with hc | rfl
    · exact takeSign_of_isDigit hc rest
    · rfl
  have hlower : c.toLower.isDigit = true ∨ c.toLower = '.' := by
    rcases hc with hc | rfl
    · have hdigit : c.val.toNat ≤ 57 := (Char.isDigit_iff_toNat.1 hc).2
      have hsame : c.toLower = c := dif_neg fun hupper => by
        have hletter : 65 ≤ c.val.toNat := UInt32.le_iff_toNat_le.1 hupper.1
        omega
      exact .inl (by rwa [hsame])
    · exact .inr rfl
  have hword : ∀ letter word, (letter.isDigit || letter == '.') = false →
      (c :: rest).map Char.toLower ≠ letter :: word := by
    intro letter word hletter heq
    rw [List.map_cons, List.cons.injEq] at heq
    rw [← heq.1, Bool.or_eq_false_iff, beq_eq_false_iff_ne] at hletter
    rcases hlower with hdigit | hpoint
    · exact Bool.false_ne_true (hletter.1.symm.trans hdigit)
    · exact hletter.2 hpoint
  rw [Double.ofText?, hsign]
  simp only
  rw [if_neg, if_neg]
  · exact hword 'n' _ rfl
  · rintro (hinf | hinf)
    · exact hword 'i' _ rfl hinf
    · exact hword 'i' _ rfl hinf

theorem legacyOctal?_eq_none {text : List Char} (h : text = ['0'] ∨ text.head? ≠ some '0' ∨
    ∃ c ∈ text, digit? 8 c = none) : legacyOctal? text = none := by
  rw [legacyOctal?.eq_def]
  split
  · rename_i c digits
    rw [if_neg]
    intro hall
    rcases h with h | h | ⟨c', hc', hnone⟩
    · cases h
    · exact h rfl
    · rcases List.mem_cons.1 hc' with rfl | hc'
      · cases hnone
      · have hsome := List.all_eq_true.1 hall c' hc'
        rw [hnone] at hsome
        cases hsome
  · rfl

theorem read?_of_decimalParts {text : List Char} {d : Decimal}
    (hparts : ∀ c ∈ text, isDecimalPart c = true)
    (hhead : ∃ c rest, text = c :: rest ∧ (c.isDigit = true ∨ c = '.'))
    (hoctal : text = ['0'] ∨ text.head? ≠ some '0' ∨ ∃ c ∈ text, digit? 8 c = none)
    (hdecimal : Decimal.ofText? text = some d) : read? text = some (d.toDouble false) := by
  have hmarks : ∀ mark ∈ ['x', 'o', 'b'], mark ∉ text := by
    intro mark hmark hmem
    have hpart : ['x', 'o', 'b'].all (!isDecimalPart ·) = true := rfl
    have hmark := List.all_eq_true.1 hpart mark hmark
    rw [hparts mark hmem] at hmark
    exact Bool.false_ne_true hmark
  obtain ⟨c, rest, rfl, hc⟩ := hhead
  rw [read?_of_not_marked hmarks, legacyOctal?_eq_none hoctal, ofText?_of_head hc, hdecimal]
  rfl

/-! ## Reading -/

/-- The value that is read, which can be infinite. -/
def Form.read : Form → Double
  | decimal d => d.toDouble false
  | places bits digits => .ofNat (leading bits digits)

theorem Spells.isDecimalPart {text : List Char} {d : Decimal} (h : Spells text (.decimal d)) :
    ∀ c ∈ text, isDecimalPart c = true := by
  cases h with
  | whole hne hdigits hpower =>
    rw [List.forall_mem_append]
    exact ⟨fun c hc => isDecimalPart_of_isDigit (hdigits c hc), hpower.isDecimalPart⟩
  | point hne hdigits hpower =>
    obtain ⟨hwhole, hfraction⟩ := List.forall_mem_append.1 hdigits
    rw [List.forall_mem_append, List.forall_mem_cons, List.forall_mem_append]
    exact ⟨fun c hc => isDecimalPart_of_isDigit (hwhole c hc), rfl,
      fun c hc => isDecimalPart_of_isDigit (hfraction c hc), hpower.isDecimalPart⟩

theorem Spells.read?_eq {text : List Char} {form : Form} (h : Spells text form) :
    read? text = some form.read := by
  cases h with
  | marked hmark hne hdigits => exact read?_marked hmark hne hdigits
  | octal hne hdigits => exact read?_octal hne hdigits
  | @whole whole power exponent hne hdigits hpower hdecimal =>
    have hparts := (Spells.whole hne hdigits hpower hdecimal).isDecimalPart
    refine read?_of_decimalParts hparts ?_ ?_ (ofText?_whole hne hdigits hpower)
    · obtain ⟨c, rest, rfl⟩ := List.exists_cons_of_ne_nil hne
      exact ⟨c, rest ++ power, rfl, .inl (hdigits c List.mem_cons_self)⟩
    · rcases hdecimal with rfl | hhead | ⟨c, hc, hnone⟩
      · cases hpower with
        | none => exact .inl rfl
        | unsigned | plus | minus => exact .inr (.inr ⟨'e', by simp, rfl⟩)
      · obtain ⟨c, rest, rfl⟩ := List.exists_cons_of_ne_nil hne
        exact .inr (.inl hhead)
      · exact .inr (.inr ⟨c, List.mem_append_left _ hc, hnone⟩)
  | @point whole fraction power exponent hne hdigits hpower =>
    have hparts := (Spells.point hne hdigits hpower).isDecimalPart
    refine read?_of_decimalParts hparts ?_ (.inr (.inr ⟨'.', by simp, rfl⟩))
      (ofText?_point hne hdigits hpower)
    cases whole with
    | nil => exact ⟨'.', fraction ++ power, rfl, .inr rfl⟩
    | cons c rest =>
      exact ⟨c, rest ++ '.' :: (fraction ++ power), rfl, .inl (hdigits c List.mem_cons_self)⟩

theorem Spells.not_mem {text : List Char} {form : Form} (h : Spells text form) : 'n' ∉ text := by
  have hplaces : ∀ {radix : Nat} {text : List Char} {digits : List Nat},
      digit? radix 'n' = none → text.map (digit? radix) = digits.map some → 'n' ∉ text := by
    intro radix text digits hnone hdigits hmem
    obtain ⟨d, hd⟩ := exists_digit_of_mem hdigits hmem
    cases hnone.symm.trans hd
  cases form with
  | decimal d => exact fun hmem => Bool.false_ne_true (h.isDecimalPart 'n' hmem)
  | places bits digits =>
    cases h with
    | marked hmark hne hdigits =>
      rw [List.mem_cons, List.mem_cons, not_or, not_or]
      rcases mem_marks_iff.1 hmark with ⟨rfl, rfl⟩ | ⟨rfl, rfl⟩ | ⟨rfl, rfl⟩
      all_goals exact ⟨by decide, by decide, hplaces rfl hdigits⟩
    | octal hne hdigits =>
      rw [List.mem_cons, not_or]
      exact ⟨by decide, hplaces rfl hdigits⟩

theorem value?_eq_of_spells {text : String} {form : Form} (h : Spells (plain text) form) :
    value? text = (some form.read).filter Double.isFinite := by
  have hlast : ¬(text.toList.filter (· != '_')).getLast? = some 'n' := by
    intro hlast
    refine h.not_mem (List.mem_map.2 ⟨'n', ?_, rfl⟩)
    exact List.mem_of_getLast? hlast
  rw [value?, if_neg hlast]
  change (read? (plain text)).filter _ = _
  rw [h.read?_eq]

end Fingerprint.Numeral
