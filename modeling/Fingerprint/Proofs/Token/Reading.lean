import Mathlib.Tactic.Common
import Fingerprint.Proofs.Tree.Alike
import Fingerprint.Token.OfFunction
/-!
# Readings of nodes that are alike

The tokens of expressions and parameters are the same for nodes that are alike.  A token shows the
kinds of nodes, the texts of a few and the order of others, all of which have to agree; and no
closed node may stand where the parts of a list are read one by one.  The grammar has no literal and
no block in such a place, but a node that the parser recovered can have one anywhere.

A reading that takes no notice of parentheses is used for all expressions; what else is read stands
where there can be none.
-/

namespace Fingerprint

namespace Slot

def shown (n : Node) : Slot → List Node
  | .text => [n]
  | .textOf field | .nameOf field => (n.child? field).toList
  | _ => []

def opened (n : Node) : Slot → List Node
  | .partsOf field => (n.child? field).toList
  | .arguments => (n.child? "arguments").toList.filter (·.kind != "template_string")
  | .tests => (n.child? "body").toList ++ n.cases
  | .caught => (n.child? "handler").toList ++ (n.child? "finalizer").toList
  | _ => []

/-- The nodes whose order in the source a slot shows. -/
def compared (n : Node) : Slot → List Node
  | .update => (n.child? "operator").toList ++ (n.child? "argument").toList
  | .sequence => n.gathered
  | _ => []

/-- The nodes below its own from which a slot takes children that are no expressions, each with such
a child. -/
def reserved (n : Node) : Slot → List (Node × Node)
  | .tests =>
    (n.child? "body").toList.flatMap (fun c => c.children.map (c, ·)) ++
      n.cases.flatMap fun c => c.caseStatements.map (c, ·)
  | .caught =>
    ((n.child? "handler").toList ++ (n.child? "finalizer").toList).flatMap
      fun c => c.children.map (c, ·)
  | _ => []

/-- Whether a slot finds no parentheses where it asks for a name, for entries or for a list, and
sequences only in a sequence. -/
def fits (kind : String) : Slot → Bool
  | .textOf field | .nameOf field | .kindOf field | .partsOf field =>
    !(Node.placesOf kind).contains (some field)
  | .entries => Node.placesOf kind == []
  | .tests => !(Node.placesOf kind).contains (some "body")
  | .sequence => kind == "sequence_expression"
  | _ => true

/-- Whether a slot is about one child that is no body. -/
def shunsBodies (kind : String) : Slot → Bool
  | .operand field | .textOf field | .kindOf field | .clause field =>
    !(Node.bodyPlacesOf kind).contains (some field)
  | _ => false

end Slot

namespace Node

def slots (n : Node) : List Slot :=
  ((Form.expressions.lookup n.kind).toList ++ (Form.statements.lookup n.kind).toList).flatMap
    Form.slots

def opened (n : Node) : List Node :=
  n.slots.flatMap (Slot.opened n) ++ if n.isFunction then (n.child? "parameters").toList else []

theorem mem_opened_of_slot {n m : Node} {slot : Slot} (hslot : slot ∈ n.slots)
    (hm : m ∈ slot.opened n) : m ∈ n.opened :=
  List.mem_append_left _ (List.mem_flatMap.2 ⟨slot, hslot, hm⟩)

theorem mem_opened_of_parameters {n m : Node} (hfunction : n.isFunction = true)
    (hm : n.child? "parameters" = some m) : m ∈ n.opened :=
  List.mem_append_right _ (by simp [hfunction, hm])

def reserved (n : Node) : List (Node × Node) :=
  n.slots.flatMap (Slot.reserved n) ++
    if n.isFunction then (n.child? "parameters").toList.flatMap fun c => c.children.map (c, ·)
    else []

theorem mem_reserved_of_slot {n : Node} {p : Node × Node} {slot : Slot} (hslot : slot ∈ n.slots)
    (hp : p ∈ slot.reserved n) : p ∈ n.reserved :=
  List.mem_append_left _ (List.mem_flatMap.2 ⟨slot, hslot, hp⟩)

theorem mem_reserved_of_parameters {n c d : Node} (hfunction : n.isFunction = true)
    (hc : n.child? "parameters" = some c) (hd : d ∈ c.children) : (c, d) ∈ n.reserved :=
  List.mem_append_right _ (by simp [hfunction, hc, hd])

def SameOrder (as bs : List Node) : Prop :=
  ∀ p ∈ as.zip bs, ∀ q ∈ as.zip bs, p.1.start < q.1.start ↔ p.2.start < q.2.start

instance (as bs : List Node) : Decidable (SameOrder as bs) :=
  inferInstanceAs (Decidable (∀ p ∈ as.zip bs, ∀ q ∈ as.zip bs, _ ↔ _))

theorem sameOrder_of_forall₂ {r : Node → Node → Prop}
    (hstart : ∀ {a b c d : Node}, r a b → r c d → (a.start < c.start ↔ b.start < d.start))
    {as bs : List Node} (h : List.Forall₂ r as bs) : SameOrder as bs := by
  obtain ⟨-, hzip⟩ := List.forall₂_iff_zip.1 h
  exact fun _ hp _ hq => hstart (hzip hp) (hzip hq)

/-- Patterns that bind names have no parentheses, which only targets of assignments can have. -/
def isBinding (n : Node) : Bool := n.patterns.all (·.kind != "parenthesized_expression")

/-- A relation that can be followed into lists, and from functions and classes to what shows of
them. -/
structure Listed (free eased : Prop) (closed : Node → Bool) (r : Node → Node → Prop) : Prop
    extends Akin free eased closed r where
  opened : ∀ {a b c : Node}, r a b → c ∈ a.opened → closed c = false
  reserved : eased → ∀ {a b : Node}, r a b → ∀ p ∈ a.reserved, p.1.takes p.2 = false
  kept : ∀ {a b : Node}, r a b → closed a = true → a.kind ∈ keepingKinds →
    Option.Rel r (a.child? "name") (b.child? "name") ∧
      List.Forall₂ r (a.parts.filter (·.kind == "class_heritage"))
        (b.parts.filter (·.kind == "class_heritage"))

/-- Nodes that are akin and agree in the texts and in the order that tokens show, where lists are
open. -/
structure Readable (free eased : Prop) (closed : Node → Bool) (r : Node → Node → Prop) : Prop
    extends Listed free eased closed r where
  shown_eq : ∀ {a b : Node} {slot : Slot}, r a b → slot ∈ a.slots →
    (slot.shown a).map text = (slot.shown b).map text
  order : ∀ {a b : Node} {slot : Slot}, r a b → slot ∈ a.slots →
    SameOrder (slot.compared a) (slot.compared b)
  endsInN_eq : ∀ {a b : Node}, r a b → a.kind = "number" → a.endsInN = b.endsInN

theorem closedKinds_keep_nothing : ∀ kind ∈ closedKinds, kind ∉ keepingKinds := by decide

/-- Nodes that are alike and can be read, functions and their directives too. -/
structure Legible (free eased : Prop) (closed : Node → Bool) (r : Node → Node → Prop) : Prop
    extends Alike free eased closed r, Readable free eased closed r where
  kept := fun _ ha hkeeps => absurd hkeeps (closedKinds_keep_nothing _ (kind_mem ha))
  binding : eased → ∀ {a b : Node}, r a b → a.isFunction = true →
    ∀ p ∈ b.parameters, p.isBinding = true
  directiveTexts_eq : ∀ {a b : Node}, r a b → a.isFunction = true →
    a.directiveTexts = b.directiveTexts

def Blind {β : Type} (r : Node → Node → Prop) (f : Node → β) : Prop :=
  ∀ ⦃a b : Node⦄, r a b → f a = f b

theorem mem_slots_of_expression {n : Node} {form : Form}
    (h : Form.expressions.lookup n.kind = some form) {slot : Slot} (hslot : slot ∈ form.slots) :
    slot ∈ n.slots := by
  simp [slots, h, hslot]

theorem mem_slots_of_statement {n : Node} {form : Form}
    (h : Form.statements.lookup n.kind = some form) {slot : Slot} (hslot : slot ∈ form.slots) :
    slot ∈ n.slots := by
  simp [slots, h, hslot]

theorem forall_slots {p : String → Slot → Prop}
    (h : ∀ entry ∈ Form.expressions ++ Form.statements, ∀ slot ∈ entry.2.slots, p entry.1 slot)
    {n : Node} {slot : Slot} (hslot : slot ∈ n.slots) : p n.kind slot := by
  obtain ⟨form, hform, hslot⟩ := List.mem_flatMap.1 hslot
  rw [List.mem_append, Option.mem_toList, Option.mem_toList] at hform
  refine h (n.kind, form) (List.mem_append.2 ?_) slot hslot
  exact hform.imp mem_of_lookup_eq_some mem_of_lookup_eq_some

theorem fits_of_mem_slots {n : Node} {slot : Slot} (hslot : slot ∈ n.slots) :
    slot.fits n.kind = true :=
  forall_slots (p := fun kind slot => slot.fits kind = true) (by decide) hslot

/-- What a slot asks for by a name is no place for an expression, nor for a body. -/
theorem not_mem_of_fits {fields : List (Option String)} {field : Option String}
    (h : (!fields.contains field) = true) : field ∉ fields := by
  rw [Bool.not_eq_true', ← Bool.not_eq_true, List.contains_iff_mem] at h
  exact h

/-- Of the closed nodes only hosts show more than their kinds, and no host shows its bodies. -/
theorem shunsBodies_of_mem_slots {n : Node} (hkind : n.kind ∈ closedKinds) {slot : Slot}
    (hslot : slot ∈ n.slots) : n.kind ∈ hostKinds ∧ slot.shunsBodies n.kind = true :=
  forall_slots (p := fun kind slot => kind ∈ closedKinds →
    kind ∈ hostKinds ∧ slot.shunsBodies kind = true) (by decide) hslot hkind

section Shown

variable {free eased : Prop} {closed : Node → Bool} {r : Node → Node → Prop}
  (h : Alike free eased closed r)
include h

theorem Alike.shown {a b : Node} (hab : r a b) {slot : Slot} (hslot : slot ∈ a.slots) :
    List.Forall₂ r (slot.shown a) (slot.shown b) := by
  have hfits := fits_of_mem_slots hslot
  cases ha : closed a with
  | true =>
    obtain ⟨hhost, hshuns⟩ := shunsBodies_of_mem_slots (h.kind_mem ha) hslot
    cases slot with
    | text | nameOf field => cases hshuns
    | textOf field =>
      exact forall₂_toList (h.host_child?_of_field hab hhost (not_mem_of_fits hshuns)
        (not_mem_of_fits hfits))
    | _ => exact .nil
  | false =>
    cases slot with
    | text => exact .cons hab .nil
    | textOf field | nameOf field =>
      exact forall₂_toList (h.child?_of_field hab ha (not_mem_of_fits hfits))
    | _ => exact .nil

theorem Alike.compared {a b : Node} (hab : r a b) {slot : Slot} (hslot : slot ∈ a.slots) :
    List.Forall₂ (Eased eased r) (slot.compared a) (slot.compared b) := by
  have hfits := fits_of_mem_slots hslot
  cases ha : closed a with
  | true =>
    obtain ⟨-, hshuns⟩ := shunsBodies_of_mem_slots (h.kind_mem ha) hslot
    cases slot with
    | update | sequence => cases hshuns
    | _ => exact .nil
  | false =>
    cases slot with
    | update =>
      exact List.rel_append (forall₂_toList (h.child? hab ha "operator"))
        (forall₂_toList (h.child? hab ha "argument"))
    | sequence => exact h.gathered hab (eq_of_beq hfits)
    | _ => exact .nil

/-- Without parentheses it is enough that all nodes start in the same order. -/
theorem Alike.order_of_start_lt_iff (heased : ¬eased)
    (hstart : ∀ {a b c d : Node}, r a b → r c d → (a.start < c.start ↔ b.start < d.start))
    {a b : Node} {slot : Slot} (hab : r a b) (hslot : slot ∈ a.slots) :
    SameOrder (slot.compared a) (slot.compared b) :=
  sameOrder_of_forall₂ hstart ((h.compared hab hslot).imp fun _ _ hcd => hcd.strict heased)

end Shown

/-- Operands that correspond and start in the same order correspond in this order. -/
theorem operands_of_sameOrder {r : Node → Node → Prop} {a b : Node}
    (h : List.Forall₂ r a.gathered b.gathered) (horder : SameOrder a.gathered b.gathered) :
    List.Forall₂ r a.operands b.operands := by
  have hzip : List.Forall₂ (fun c d => r c d ∧ (c, d) ∈ a.gathered.zip b.gathered)
      a.gathered b.gathered := by
    obtain ⟨hlength, hrel⟩ := List.forall₂_iff_zip.1 h
    exact List.forall₂_iff_zip.2 ⟨hlength, fun hcd => ⟨hrel hcd, hcd⟩⟩
  refine (forall₂_mergeSort (fun c d hcd c' d' hcd' => ?_) hzip).imp fun _ _ => And.left
  have hbefore : c'.start < c.start ↔ d'.start < d.start := horder _ hcd'.2 _ hcd.2
  simp only [decide_eq_decide]
  omega

/-! ## Forms -/

theorem forms_numeral :
    ∀ entry ∈ Form.expressions ++ Form.statements, entry.2.head = .numeral → entry.1 = "number" := by
  decide

/-- Tokens of closed nodes have names that do not depend on what is below them. -/
theorem forms_closed :
    ∀ entry ∈ Form.expressions ++ Form.statements,
      entry.2.head ∈ [Head.connective, .call, .member, .attempt] →
        entry.1 ∉ closedKinds ++ keepingKinds := by
  decide

theorem forms_loop :
    ∀ entry ∈ Form.expressions ++ Form.statements, entry.2.head = .loop → entry.1 ∈ hostKinds := by
  decide

theorem forms_keeping :
    ∀ entry ∈ Form.expressions ++ Form.statements, ∀ slot ∈ entry.2.slots,
      entry.1 ∈ keepingKinds → slot = .nameOf "name" ∨ slot = .heritage := by
  decide

def HasForm (n : Node) (form : Form) : Prop :=
  Form.expressions.lookup n.kind = some form ∨ Form.statements.lookup n.kind = some form

namespace HasForm

variable {n : Node} {form : Form} (h : n.HasForm form)
include h

theorem mem_forms : (n.kind, form) ∈ Form.expressions ++ Form.statements :=
  List.mem_append.2 (h.imp mem_of_lookup_eq_some mem_of_lookup_eq_some)

theorem mem_slots {slot : Slot} (hslot : slot ∈ form.slots) : slot ∈ n.slots :=
  h.elim (mem_slots_of_expression · hslot) (mem_slots_of_statement · hslot)

end HasForm

namespace Listed

variable {free eased : Prop} {closed : Node → Bool} {r : Node → Node → Prop}
  (h : Listed free eased closed r)
include h

theorem name {a b : Node} (hab : r a b) (hkind : a.kind ∈ keepingKinds) :
    Option.Rel r (a.child? "name") (b.child? "name") := by
  cases ha : closed a with
  | true => exact (h.kept hab ha hkind).1
  | false => exact h.child?_of_field hab ha (not_mem_placesOf "name" (by decide))

theorem heritage {a b : Node} (hab : r a b) (hslot : Slot.heritage ∈ a.slots) :
    List.Forall₂ (fun c d => c.kind = "class_heritage" ∧ r c d)
      (a.parts.filter (·.kind == "class_heritage"))
      (b.parts.filter (·.kind == "class_heritage")) := by
  cases ha : closed a with
  | false => exact h.parts_filter_kind hab ha (by decide)
  | true =>
    rcases h.kind_mem_or ha with hkind | hkind
    · cases (shunsBodies_of_mem_slots hkind hslot).2
    · refine (List.forall₂_and_left _ _).2 ⟨fun c hc => ?_, (h.kept hab ha hkind).2⟩
      exact eq_of_beq (List.mem_filter.1 hc).2

theorem cases {a b : Node} (hab : r a b) (ha : closed a = false)
    (htests : Slot.tests ∈ a.slots) :
    List.Forall₂ (fun c d => c ∈ a.cases ∧ closed c = false ∧ r c d) a.cases b.cases := by
  have hopened : ∀ c ∈ (a.child? "body").toList ++ a.cases, closed c = false :=
    fun c hc => h.opened hab (mem_opened_of_slot htests hc)
  have hplace := not_mem_of_fits (fits_of_mem_slots htests)
  have hcases : List.Forall₂ r a.cases b.cases := by
    rw [Node.cases, Node.cases]
    rcases rel_cases (h.child?_of_field hab ha hplace) with ⟨hc, hd⟩ | ⟨c, d, hc, hd, hcd⟩
    · rw [hc, hd]
      exact .nil
    · rw [hc, hd]
      refine h.parts_of_takes hcd (hopened c (by simp [hc])) fun heased x hx => ?_
      exact h.reserved heased hab (c, x)
        (mem_reserved_of_slot htests (by simp [Slot.reserved, hc, hx]))
  refine (List.forall₂_and_left _ _).2 ⟨fun _ hc => hc, ?_⟩
  exact (List.forall₂_and_left _ _).2
    ⟨fun c hc => hopened c (List.mem_append_right _ hc), hcases⟩

end Listed

theorem kind_ne_star_of_isLoose {n : Node} (h : n.isLoose = true) : (n.kind == "*") = false := by
  rw [isLoose, Bool.and_eq_true, isComment, Bool.or_eq_true, beq_iff_eq, beq_iff_eq] at h
  rcases h.1 with hkind | hkind <;> rw [hkind] <;> decide

/-! ## Slots -/

section Slots

variable {free eased : Prop} {closed : Node → Bool} {r : Node → Node → Prop}
  (h : Readable free eased closed r) {read below : Reading}

include h

theorem map_child?_eq {β : Type} {f : Node → β} (hf : Blind (Eased eased r) f) {a b : Node}
    (hab : r a b) (ha : closed a = false) (field : String) :
    (a.child? field).map f = (b.child? field).map f :=
  map_eq_of_rel (fun _ _ hcd => hf hcd) (h.child? hab ha field)

theorem map_child?_eq_of_field {β : Type} {f : Node → β} (hf : Blind r f) {a b : Node}
    (hab : r a b) (ha : closed a = false) {field : String} (hfield : some field ∉ placesOf a.kind) :
    (a.child? field).map f = (b.child? field).map f :=
  map_eq_of_rel (fun _ _ hcd => hf hcd) (h.child?_of_field hab ha hfield)

theorem map_parts_eq {β : Type} {f : Node → β} (hf : Blind (Eased eased r) f) {a b : Node}
    (hab : r a b) (ha : closed a = false) : a.parts.map f = b.parts.map f :=
  map_eq_of_forall₂ (fun _ _ hcd => hf hcd) (h.parts hab ha)

theorem text_eq_of_kind {a b : Node} (hab : r a b)
    (hkind : (Form.expressions.lookup a.kind).map Form.slots = some [.text]) : a.text = b.text := by
  obtain ⟨form, hform, hslots⟩ := Option.map_eq_some_iff.1 hkind
  have htext : Slot.text ∈ form.slots := by
    rw [hslots]
    exact List.mem_singleton_self _
  exact List.head_eq_of_cons_eq (h.shown_eq hab (mem_slots_of_expression hform htext))

theorem bindingText_blind (hread : Blind (Eased eased r) read) : Blind r (bindingText read) := by
  intro a b hab
  rw [bindingText, bindingText, ← h.kind_eq hab]
  split
  · rename_i hkind
    exact text_eq_of_kind h hab (by rw [hkind]; rfl)
  · exact hread (.inl hab)

theorem keyText_blind (hread : Blind (Eased eased r) read) (hbelow : Blind (Eased eased r) below) :
    Blind r (keyText read below) := by
  intro a b hab
  rw [keyText, keyText, ← h.kind_eq hab]
  split
  · rename_i hkind
    rw [List.contains_iff_mem] at hkind
    simp only [List.mem_cons, List.not_mem_nil, or_false] at hkind
    rcases hkind with hkind | hkind | hkind <;>
      exact text_eq_of_kind h hab (by rw [hkind]; rfl)
  · split
    · rename_i hkind
      rw [map_parts_eq h hbelow hab (h.closed_eq_false hkind (by decide))]
    · exact hread (.inl hab)

theorem entryText_blind (hread : Blind (Eased eased r) read)
    (hbelow : Blind (Eased eased r) below) : Blind r (entryText read below) := by
  intro a b hab
  have hkey := keyText_blind h hread hbelow
  simp only [entryText]
  rw [← h.kind_eq hab]
  split
  · rename_i hkind
    have ha := h.closed_eq_false_of_mem (List.contains_iff_mem.1 hkind) (by decide)
    rw [map_child?_eq_of_field h hkey hab ha (not_mem_placesOf "key" (by decide)),
      map_child?_eq h hbelow hab ha]
  · split
    · rename_i hkind
      rw [List.contains_iff_mem] at hkind
      simp only [List.mem_cons, List.not_mem_nil, or_false] at hkind
      rw [text_eq_of_kind h hab (by rcases hkind with hkind | hkind <;> rw [hkind] <;> rfl)]
    · split
      · have hname := h.name hab (by rw [‹a.kind = _›]; decide)
        rw [map_eq_of_rel (fun _ _ hcd => hkey hcd) hname]
      · exact hread (.inl hab)

theorem declaratorText_eq (hread : Blind (Eased eased r) read) {a b : Node} (hab : r a b)
    (ha : closed a = false) : declaratorText read a = declaratorText read b := by
  rw [declaratorText, declaratorText, map_child?_eq h hread hab ha,
    map_child?_eq_of_field h (bindingText_blind h hread) hab ha
      (not_mem_placesOf "name" (by decide))]

theorem variablesToken_eq (hread : Blind (Eased eased r) read) {a b : Node} (hab : r a b)
    (ha : closed a = false) : variablesToken read a = variablesToken read b := by
  have hkeyword : a.declarationKeyword = b.declarationKeyword := by
    rw [declarationKeyword, declarationKeyword, ← h.kind_eq hab,
      map_child?_eq_of_field h (fun _ _ hcd => h.kind_eq hcd) hab ha
        (not_mem_placesOf "kind" (by decide))]
  have hdeclarators : a.declarators.map (declaratorText read) =
      b.declarators.map (declaratorText read) := by
    refine map_eq_of_forall₂ (fun c d hcd => ?_) (h.parts_filter_kind hab ha (by decide))
    exact declaratorText_eq h hread hcd.2 (h.closed_eq_false hcd.1 (by decide))
  rw [variablesToken, variablesToken, hkeyword, hdeclarators]

omit h in
theorem clauseText_of_expression {n : Node} (hkind : n.kind ∈ expressionKinds) :
    clauseText read below n = read n := by
  have hclause : ∀ kind ∈ expressionKinds, Form.declarationKinds.contains kind = false ∧
      kind ≠ "expression_statement" ∧ kind ≠ "empty_statement" := by
    decide
  obtain ⟨hdeclaration, hstatement, hempty⟩ := hclause _ hkind
  rw [clauseText, hdeclaration, if_neg Bool.false_ne_true, if_neg hstatement, if_neg hempty]

theorem clauseText_blind (hread : Blind (Eased eased r) read)
    (hbelow : Blind (Eased eased r) below) : Blind (Eased eased r) (clauseText read below) := by
  rintro a b (hab | ⟨heased, hab⟩)
  · rw [clauseText, clauseText, ← h.kind_eq hab]
    split
    · rename_i hkind
      have ha := h.closed_eq_false_of_mem (List.contains_iff_mem.1 hkind) (by decide)
      rw [variablesToken_eq h hbelow hab ha]
    · split
      · rename_i hkind
        rw [map_parts_eq h hread hab (h.closed_eq_false hkind (by decide))]
      · split
        · rfl
        · exact hread (.inl hab)
  · rw [clauseText_of_expression (kind_mem_of_isExpression hab.isExpression),
      clauseText_of_expression (by rw [hab.kind]; decide)]
    exact hread (.inr ⟨heased, hab⟩)

theorem fill_nameOf_eq {a b : Node} (hab : r a b) {field : String}
    (hslot : .nameOf field ∈ a.slots) :
    fill read below a (.nameOf field) = fill read below b (.nameOf field) := by
  have htext := h.shown_eq hab hslot
  rw [Slot.shown, Slot.shown, ← Option.toList_map, ← Option.toList_map] at htext
  exact htext

theorem fill_textOf_eq {a b : Node} (hab : r a b) {field : String}
    (hslot : .textOf field ∈ a.slots) :
    fill read below a (.textOf field) = fill read below b (.textOf field) := by
  have htext := h.shown_eq hab hslot
  rw [Slot.shown, Slot.shown, ← Option.toList_map, ← Option.toList_map] at htext
  have hhead := congrArg List.head? htext
  rw [Option.head?_toList, Option.head?_toList] at hhead
  rw [fill, fill, hhead]

theorem fill_heritage_eq (hread : Blind (Eased eased r) read) {a b : Node} (hab : r a b)
    (hslot : Slot.heritage ∈ a.slots) :
    fill read below a .heritage = fill read below b .heritage := by
  rw [fill, fill]
  refine flatMap_eq_of_forall₂ (fun c d hcd => ?_) (h.heritage hab hslot)
  exact map_parts_eq h hread hcd.2 (h.closed_eq_false hcd.1 (by decide))

section Open

variable {a b : Node} (hab : r a b) (ha : closed a = false)
include hab ha

theorem fill_partsOf_eq (hread : Blind (Eased eased r) read) {field : String}
    (hslot : .partsOf field ∈ a.slots) :
    fill read below a (.partsOf field) = fill read below b (.partsOf field) := by
  have hplace := not_mem_of_fits (fits_of_mem_slots hslot)
  rw [fill, fill]
  rcases rel_cases (h.child?_of_field hab ha hplace) with ⟨hc, hd⟩ | ⟨c, d, hc, hd, hcd⟩
  · rw [hc, hd]
  · have hopen := h.opened hab (mem_opened_of_slot (m := c) hslot (by simp [Slot.opened, hc]))
    rw [hc, hd, Option.map_some, Option.map_some, map_parts_eq h hread hcd hopen]

theorem fill_arguments_eq (hread : Blind (Eased eased r) read) (hslot : .arguments ∈ a.slots) :
    fill read below a .arguments = fill read below b .arguments := by
  rw [fill, fill]
  rcases rel_cases (h.child?_of_field hab ha (not_mem_placesOf "arguments" (by decide))) with
    ⟨hc, hd⟩ | ⟨c, d, hc, hd, hcd⟩
  · rw [hc, hd]
  · rw [hc, hd]
    dsimp only
    rw [← h.kind_eq hcd]
    split
    · rfl
    · rename_i hkind
      exact map_parts_eq h hread hcd
        (h.opened hab (mem_opened_of_slot hslot (by simp [Slot.opened, hc, hkind])))

/-- An operator is read before or after its argument on both sides. -/
theorem fill_update_eq (hread : Blind (Eased eased r) read) (hslot : .update ∈ a.slots) :
    fill read below a .update = fill read below b .update := by
  have horder := h.order hab hslot
  rw [Slot.compared, Slot.compared] at horder
  rw [fill, fill, h.operator?_eq hab ha, map_child?_eq h hread hab ha]
  rcases rel_cases (h.child? hab ha "operator") with ⟨hc, hd⟩ | ⟨c, d, hc, hd, hcd⟩
  · rw [hc, hd]
  · rcases rel_cases (h.child? hab ha "argument") with ⟨hx, hy⟩ | ⟨x, y, hx, hy, hxy⟩
    · rw [hc, hd, hx, hy]
    · rw [hc, hd, hx, hy] at horder
      have hbefore : c.start < x.start ↔ d.start < y.start :=
        horder (c, d) (by simp) (x, y) (by simp)
      rw [hc, hd, hx, hy]
      simp only [hbefore]

theorem fill_star_eq : fill read below a .star = fill read below b .star := by
  have hstar := (h.children hab ha).any (p := fun c => c.kind == "*")
    (fun _ => kind_ne_star_of_isLoose) fun c d hcd => by
      rw [Bool.eq_iff_iff, beq_iff_eq, beq_iff_eq]
      exact h.kind_eq_iff hcd.toEased (by decide)
  rw [fill, fill, hstar]

theorem fill_caught_eq (hread : Blind (Eased eased r) read) (hslot : .caught ∈ a.slots) :
    fill read below a .caught = fill read below b .caught := by
  rw [fill, fill]
  rcases rel_cases (h.child?_of_field hab ha (not_mem_placesOf "handler" (by decide))) with
    ⟨hc, hd⟩ | ⟨c, d, hc, hd, hcd⟩
  · rw [hc, hd]
  · have hopen := h.opened hab (mem_opened_of_slot (m := c) hslot (by simp [Slot.opened, hc]))
    rw [hc, hd, Option.bind_some, Option.bind_some,
      map_child?_eq_of_field h (bindingText_blind h hread) hcd hopen
        (not_mem_placesOf "parameter" (by decide))]

end Open

theorem fill_eq_of_open (hread : Blind (Eased eased r) read) (hbelow : Blind (Eased eased r) below)
    {a b : Node} (hab : r a b) (ha : closed a = false) {slot : Slot} (hslot : slot ∈ a.slots) :
    fill read below a slot = fill read below b slot := by
  have hfits := fits_of_mem_slots hslot
  cases slot with
  | operand field => rw [fill, fill, map_child?_eq h hread hab ha]
  | operator => rw [fill, fill, h.operator?_eq hab ha]
  | word text => rfl
  | text => exact h.shown_eq hab hslot
  | textOf field => exact fill_textOf_eq h hab hslot
  | nameOf field => exact fill_nameOf_eq h hab hslot
  | kindOf field =>
    rw [fill, fill, map_child?_eq_of_field h (fun _ _ hcd => h.kind_eq hcd) hab ha
      (not_mem_of_fits hfits)]
  | parts => rw [fill, fill, map_parts_eq h hread hab ha]
  | partsOf field => exact fill_partsOf_eq h hab ha hread hslot
  | arguments => exact fill_arguments_eq h hab ha hread hslot
  | update => exact fill_update_eq h hab ha hread hslot
  | star => exact fill_star_eq h hab ha
  | entries =>
    rw [fill, fill]
    exact map_eq_of_forall₂ (fun _ _ hcd => entryText_blind h hread hbelow hcd)
      (h.parts_of_kind hab ha (eq_of_beq hfits))
  | sequence =>
    rw [fill, fill]
    exact map_eq_of_forall₂ (fun _ _ hcd => hread hcd)
      (operands_of_sameOrder (h.gathered hab (eq_of_beq hfits)) (h.order hab hslot))
  | heritage =>
    exact fill_heritage_eq h hread hab hslot
  | clause field =>
    rw [fill, fill, map_child?_eq h (clauseText_blind h hread hbelow) hab ha]
  | tests =>
    rw [fill, fill]
    refine map_eq_of_forall₂ (fun c d hcd => ?_) (h.cases hab ha hslot)
    rw [map_child?_eq h hread hcd.2.2 hcd.2.1]
  | caught => exact fill_caught_eq h hab ha hread hslot

/-- A host fills the slots of its token with what it has outside of its bodies. -/
theorem fill_eq_of_host (hread : Blind (Eased eased r) read) (hbelow : Blind (Eased eased r) below)
    {a b : Node} (hab : r a b) (hhost : a.kind ∈ hostKinds) {slot : Slot} (hslot : slot ∈ a.slots)
    (hshuns : slot.shunsBodies a.kind = true) : fill read below a slot = fill read below b slot := by
  have hfits := fits_of_mem_slots hslot
  cases slot with
  | operand field =>
    rw [fill, fill, map_eq_of_rel (fun _ _ hcd => hread hcd)
      (h.host_child? hab hhost (not_mem_of_fits hshuns))]
  | textOf field =>
    exact fill_textOf_eq h hab hslot
  | kindOf field =>
    rw [fill, fill, map_eq_of_rel (fun _ _ hcd => h.kind_eq hcd)
      (h.host_child?_of_field hab hhost (not_mem_of_fits hshuns) (not_mem_of_fits hfits))]
  | clause field =>
    rw [fill, fill, map_eq_of_rel (fun _ _ hcd => clauseText_blind h hread hbelow hcd)
      (h.host_child? hab hhost (not_mem_of_fits hshuns))]
  | _ => cases hshuns

theorem fill_eq (hread : Blind (Eased eased r) read) (hbelow : Blind (Eased eased r) below)
    {a b : Node} (hab : r a b) {slot : Slot} (hslot : slot ∈ a.slots) :
    fill read below a slot = fill read below b slot := by
  cases ha : closed a with
  | false => exact fill_eq_of_open h hread hbelow hab ha hslot
  | true =>
    rcases h.kind_mem_or ha with hkind | hkind
    · obtain ⟨hhost, hshuns⟩ := shunsBodies_of_mem_slots hkind hslot
      exact fill_eq_of_host h hread hbelow hab hhost hslot hshuns
    · have hkeeps : slot = .nameOf "name" ∨ slot = .heritage :=
        forall_slots (p := fun kind slot => kind ∈ keepingKinds →
          slot = Slot.nameOf "name" ∨ slot = Slot.heritage) forms_keeping hslot hkind
      rcases hkeeps with rfl | rfl
      · exact fill_nameOf_eq h hab hslot
      · exact fill_heritage_eq h hread hab hslot

/-! ## Expressions -/

omit h in
theorem headName_eq (h : Akin free eased closed r) {a b : Node} (hab : r a b)
    (hbig : a.kind = "number" → a.endsInN = b.endsInN) {form : Form} (hform : a.HasForm form) :
    form.head.name a = form.head.name b := by
  have hasks : form.head ∈ [Head.connective, .call, .member, .attempt] →
      closed a = false :=
    fun hhead => h.closed_eq_false rfl (forms_closed _ hform.mem_forms hhead)
  cases hhead : form.head with
  | fixed name => rfl
  | numeral =>
    have hends : a.endsInN = true ↔ b.endsInN = true := by
      rw [hbig (forms_numeral _ hform.mem_forms hhead)]
    rw [endsInN, endsInN, beq_iff_eq, beq_iff_eq] at hends
    simp only [Head.name, hends]
  | connective =>
    have ha := hasks (by rw [hhead]; decide)
    simp only [Head.name, h.operator?_eq hab ha]
  | call =>
    have ha := hasks (by rw [hhead]; decide)
    have harguments : (a.child? "arguments").map kind = (b.child? "arguments").map kind :=
      map_eq_of_rel (fun _ _ hcd => h.kind_eq hcd)
        (h.child?_of_field hab ha (not_mem_placesOf "arguments" (by decide)))
    simp only [Head.name, harguments, h.isSome_child?_eq hab ha]
  | member =>
    have ha := hasks (by rw [hhead]; decide)
    simp only [Head.name, h.isSome_child?_eq hab ha]
  | loop =>
    have hhost := forms_loop _ hform.mem_forms hhead
    simp only [Head.name, h.host_operator?_eq hab hhost]
  | attempt =>
    have ha := hasks (by rw [hhead]; decide)
    simp only [Head.name, h.isSome_child?_eq hab ha]

theorem shape_eq (hread : Blind (Eased eased r) read) (hbelow : Blind (Eased eased r) below)
    {a b : Node} (hab : r a b) {form : Form} (hform : a.HasForm form) :
    shape read below a form = shape read below b form := by
  have hfill : form.slots.flatMap (fill read below a) = form.slots.flatMap (fill read below b) :=
    List.flatMap_congr fun slot hslot => fill_eq h hread hbelow hab (hform.mem_slots hslot)
  rw [shape, shape, headName_eq h.toAkin hab (h.endsInN_eq hab) hform, hfill]

theorem expressionShape_blind (hread : Blind (Eased eased r) read)
    (hbelow : Blind (Eased eased r) below) : Blind r (expressionShape read below) := by
  intro a b hab
  rw [expressionShape, expressionShape, ← h.kind_eq hab]
  cases hform : Form.expressions.lookup a.kind with
  | none => rfl
  | some form => exact shape_eq h hread hbelow hab (.inl hform)

theorem token_blind (budget : Nat) : Blind (Eased eased r) (Expression.token budget) := by
  -- Entries and declarations are read two levels down, so the step goes back by one and by two.
  induction budget using Nat.strongRecOn with
  | ind budget ih =>
    intro a b hab
    cases budget with
    | zero => rfl
    | succ budget =>
      have hread : Blind (Eased eased r) (Expression.text budget) :=
        fun _ _ hcd => congrArg Token.text (ih budget (by omega) hcd)
      have hbelow : Blind (Eased eased r) (Expression.text (budget - 1)) :=
        fun _ _ hcd => congrArg Token.text (ih (budget - 1) (by omega) hcd)
      rw [Expression.token_succ, Expression.token_succ]
      exact expressionShape_blind h hread hbelow (h.bare hab)

theorem text_blind (budget : Nat) : Blind (Eased eased r) (Expression.text budget) :=
  fun _ _ hab => congrArg Token.text (token_blind h budget hab)

/-! ## Parameters -/

def BindsAlike (eased : Prop) (r : Node → Node → Prop) (a b : Node) : Prop :=
  r a b ∧ (eased → b.isBinding = true)

omit h in
theorem BindsAlike.of_eased {a b c d : Node} (hab : BindsAlike eased r a b)
    (hcd : Eased eased r c d) (hd : d ∈ b.children) (hbinds : b.binds d = true) :
    BindsAlike eased r c d := by
  have hsubset := patterns_subset hbinds hd
  refine ⟨hcd.resolve_right fun ⟨heased, henclosed⟩ => ?_, fun heased => ?_⟩
  · have hbare := List.all_eq_true.1 (hab.2 heased) d (hsubset d.mem_patterns_self)
    simp [henclosed.kind] at hbare
  · exact List.all_eq_true.2 fun m hm => List.all_eq_true.1 (hab.2 heased) m (hsubset hm)

theorem map_pattern_eq {β : Type} {f : Node → β} (hf : Blind (BindsAlike eased r) f) {a b : Node}
    (hab : BindsAlike eased r a b) {kind field : String} (hkind : a.kind = kind)
    (hopen : kind ∉ closedKinds ++ keepingKinds) (hfields : (kind, field) ∈ patternFields) :
    (a.child? field).map f = (b.child? field).map f := by
  rcases rel_cases (h.child? hab.1 (h.closed_eq_false hkind hopen) field) with
    ⟨hc, hd⟩ | ⟨c, d, hc, hd, hcd⟩
  · rw [hc, hd, Option.map_none]
  · have hkind' : b.kind = kind := h.kind_eq hab.1 ▸ hkind
    rw [hc, hd, Option.map_some, Option.map_some, hf (hab.of_eased hcd (mem_children_of_child? hd)
      (binds_of_field hkind' hfields (field_of_child? hd)))]

theorem map_patterns_eq {β : Type} {f : Node → β} (hf : Blind (BindsAlike eased r) f) {a b : Node}
    (hab : BindsAlike eased r a b) {kind : String} (hkind : a.kind = kind)
    (hlist : kind ∈ listPatternKinds) : a.parts.map f = b.parts.map f := by
  have hopen : ∀ kind ∈ listPatternKinds, kind ∉ closedKinds ++ keepingKinds := by decide
  have hparts := h.parts hab.1 (h.closed_eq_false hkind (hopen _ hlist))
  refine map_eq_of_forall₂ ?_ (forall₂_mem hparts)
  rintro c d ⟨-, hd, hcd⟩
  exact hf (hab.of_eased hcd (mem_children_of_mem_parts hd)
    (binds_of_list (h.kind_eq hab.1 ▸ hkind) hlist d))

theorem parameterEntryText_blind (hread : Blind (BindsAlike eased r) read) (budget : Nat) :
    Blind (BindsAlike eased r) (Parameter.entryText read budget) := by
  intro a b hab
  rw [Parameter.entryText, Parameter.entryText, ← h.kind_eq hab.1]
  split
  · rename_i hkind
    have ha := h.closed_eq_false hkind (by decide)
    have hkey := keyText_blind h (text_blind h budget) (text_blind h (budget - 1))
    rw [map_child?_eq_of_field h hkey hab.1 ha (not_mem_placesOf "key" (by decide)),
      map_pattern_eq h hread hab hkind (by decide) (by decide)]
  · exact hread hab

theorem parameterShape_blind {read : Node → Token} (hread : Blind (BindsAlike eased r) read)
    (budget : Nat) : Blind (BindsAlike eased r) (Parameter.shape read budget) := by
  intro a b hab
  have hinner : Blind (BindsAlike eased r) fun c => (read c).text :=
    fun _ _ hcd => congrArg Token.text (hread hcd)
  have hinitial := text_blind h budget
  rw [Parameter.shape, Parameter.shape, ← h.kind_eq hab.1]
  split
  · rw [text_eq_of_kind h hab.1 (by rw [‹a.kind = _›]; rfl)]
  · rw [text_eq_of_kind h hab.1 (by rw [‹a.kind = _›]; rfl)]
  iterate 2
    · have ha := h.closed_eq_false ‹_› (by decide)
      rw [map_pattern_eq h hinner hab ‹_› (by decide) (by decide),
        map_child?_eq h hinitial hab.1 ha]
  · rw [map_patterns_eq h hinner hab ‹_› (by decide)]
  · rw [map_patterns_eq h (parameterEntryText_blind h hinner budget) hab ‹_› (by decide)]
  · rw [map_patterns_eq h hinner hab ‹_› (by decide)]
  iterate 2
    · have ha := h.closed_eq_false ‹_› (by decide)
      rw [map_pattern_eq h hread hab ‹_› (by decide) (by decide)]
      rcases rel_cases (h.child? hab.1 ha "value") with ⟨hc, hd⟩ | ⟨c, d, hc, hd, hcd⟩
      · rw [hc, hd]
      · rw [hc, hd]
        simp only [hinitial hcd]
  · rfl
  · rfl

theorem parameterToken_blind (budget : Nat) :
    Blind (BindsAlike eased r) (Parameter.token budget) := by
  induction budget with
  | zero => exact fun _ _ _ => rfl
  | succ budget ih => exact parameterShape_blind h ih budget

end Slots

end Node

end Fingerprint
