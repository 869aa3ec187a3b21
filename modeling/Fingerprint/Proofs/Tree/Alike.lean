import Mathlib.Tactic.Common
import Fingerprint.Proofs.Tree.Braces
import Fingerprint.Proofs.Tree.Parentheses
import Fingerprint.Token.Statement
import Fingerprint.Tree.Quoted
/-!
# Trees that are alike

Two trees are compared node by node.  What makes two nodes alike is left open: it is any relation
that keeps the kinds of nodes and that holds of their children in turn, where comments may come and
go and, if that is allowed, the second tree may have parentheses that the first one has not.  There
can be nodes that are not looked into child by child: literals, which the rest of the library takes
as they are, blocks, whose statements can stand in another order, and the hosts of single statements,
which in the second tree may have got braces around them.

What the accessors of a node answer is then alike as well: its parts, the child under a field, the
node in parentheses, the operands of a sequence and the links of a chain of conditions.
-/

namespace Fingerprint

namespace Node

/-! ## Lists of nodes with comments between them -/

/-- A comment that hangs under no field. -/
def isLoose (n : Node) : Bool := n.isComment && n.field.isNone

theorem isSignificant_of_isLoose {n : Node} (h : n.isLoose = true) : n.isSignificant = false := by
  rw [isLoose, Bool.and_eq_true] at h
  simp [isSignificant, h.1]

theorem field_ne_of_isLoose {n : Node} (h : n.isLoose = true) (field : String) :
    (n.field == some field) = false := by
  rw [isLoose, Bool.and_eq_true, Option.isNone_iff_eq_none] at h
  rw [h.2]
  rfl

/-- Two lists of nodes that are related one by one, but for loose comments anywhere in them. -/
inductive Interleaved (r : Node → Node → Prop) : List Node → List Node → Prop
  | nil : Interleaved r [] []
  | both {a b : Node} {as bs : List Node} (h : r a b) (rest : Interleaved r as bs) :
    Interleaved r (a :: as) (b :: bs)
  | left {a : Node} {as bs : List Node} (h : a.isLoose = true) (rest : Interleaved r as bs) :
    Interleaved r (a :: as) bs
  | right {b : Node} {as bs : List Node} (h : b.isLoose = true) (rest : Interleaved r as bs) :
    Interleaved r as (b :: bs)

namespace Interleaved

variable {r : Node → Node → Prop} {as bs : List Node}

theorem imp {s : Node → Node → Prop} (hrs : ∀ a b, r a b → s a b) (h : Interleaved r as bs) :
    Interleaved s as bs := by
  induction h with
  | nil => exact .nil
  | both hab _ ih => exact .both (hrs _ _ hab) ih
  | left ha _ ih => exact .left ha ih
  | right hb _ ih => exact .right hb ih

theorem of_forall₂ (h : List.Forall₂ r as bs) : Interleaved r as bs := by
  induction h with
  | nil => exact .nil
  | cons hab _ ih => exact .both hab ih

theorem append {as' bs' : List Node} (h : Interleaved r as bs) (h' : Interleaved r as' bs') :
    Interleaved r (as ++ as') (bs ++ bs') := by
  induction h with
  | nil => exact h'
  | both hab _ ih => exact .both hab ih
  | left ha _ ih => exact .left ha ih
  | right hb _ ih => exact .right hb ih

variable {p : Node → Bool} (hloose : ∀ c : Node, c.isLoose = true → p c = false)
  (hp : ∀ a b, r a b → p a = p b)
include hloose hp

theorem filter (h : Interleaved r as bs) : List.Forall₂ r (as.filter p) (bs.filter p) := by
  induction h with
  | nil => exact .nil
  | @both a b as bs hab _ ih =>
    rw [List.filter_cons, List.filter_cons, hp a b hab]
    cases p b
    · exact ih
    · exact .cons hab ih
  | left ha _ ih => rwa [List.filter_cons_of_neg (by simp [hloose _ ha])]
  | right hb _ ih => rwa [List.filter_cons_of_neg (by simp [hloose _ hb])]

theorem find? (h : Interleaved r as bs) : Option.Rel r (as.find? p) (bs.find? p) := by
  rw [← List.head?_filter, ← List.head?_filter]
  exact rel_head?_of_forall₂ (h.filter hloose hp)

theorem any (h : Interleaved r as bs) : as.any p = bs.any p := by
  have hfound := isSome_eq_of_rel (h.find? hloose hp)
  rwa [Bool.eq_iff_iff, List.find?_isSome, List.find?_isSome, ← List.any_eq_true,
    ← List.any_eq_true, ← Bool.eq_iff_iff] at hfound

theorem eraseP (h : Interleaved r as bs) : Interleaved r (as.eraseP p) (bs.eraseP p) := by
  induction h with
  | nil => exact .nil
  | @both a b as bs hab hrest ih =>
    rw [List.eraseP_cons, List.eraseP_cons, hp a b hab]
    cases p b
    · exact .both hab ih
    · exact hrest
  | left ha _ ih =>
    rw [List.eraseP_cons_of_neg (by simp [hloose _ ha])]
    exact .left ha ih
  | right hb _ ih =>
    rw [List.eraseP_cons_of_neg (by simp [hloose _ hb])]
    exact .right hb ih

end Interleaved

/-! ## Nodes that are alike -/

def literalKinds : List String := ["string", "number", "regex", "template_string"]

/-- Kinds of the nodes that may differ in more than their children. -/
def closedKinds : List String := literalKinds ++ blockKinds ++ hostKinds

def classKinds : List String := ["class", "class_declaration", "abstract_class_declaration"]

def namespaceKinds : List String := ["internal_module"]

def keepingKinds : List String := functionKinds ++ classKinds ++ namespaceKinds

/-- A relation that keeps the kinds of nodes and hands itself down: to all children in their order if
the node is open, and to the statements of a closed block, in any order if that is free.  If it is
eased, expressions of the second tree may stand in parentheses.  The bodies of a closed host may have
got braces. -/
structure Akin (free eased : Prop) (closed : Node → Bool) (r : Node → Node → Prop) : Prop where
  kind_eq : ∀ {a b : Node}, r a b → a.kind = b.kind
  named_eq : ∀ {a b : Node}, r a b → a.named = b.named
  kind_mem_or : ∀ {a : Node}, closed a = true → a.kind ∈ closedKinds ∨ a.kind ∈ keepingKinds
  children : ∀ {a b : Node}, r a b → closed a = false →
    Interleaved (Beneath eased r a) a.children b.children
  statements : ∀ {a b : Node}, r a b → closed a = true → a.kind ∈ blockKinds →
    (∀ c ∈ a.parts, c.isStringStatement = false) ∧ Arranged free r a.parts b.parts
  hosted : ∀ {a b : Node}, r a b → closed a = true → a.kind ∈ hostKinds →
    Interleaved (Housed eased r a) a.children b.children

/-- A relation that looks into functions and classes as into other nodes. -/
structure Alike (free eased : Prop) (closed : Node → Bool) (r : Node → Node → Prop) : Prop
    extends Akin free eased closed r where
  kind_mem : ∀ {a : Node}, closed a = true → a.kind ∈ closedKinds
  kind_mem_or := fun ha => .inl (kind_mem ha)

namespace Alike

variable {free eased : Prop} {closed : Node → Bool} {r : Node → Node → Prop}
  (h : Alike free eased closed r)
include h

theorem closed_eq_false {a : Node} {kind : String} (hkind : a.kind = kind)
    (hopen : kind ∉ closedKinds) : closed a = false := by
  rw [← Bool.not_eq_true]
  intro hclosed
  exact hopen (hkind ▸ h.kind_mem hclosed)

theorem closed_eq_false_of_mem {a : Node} {kinds : List String} (hkind : a.kind ∈ kinds)
    (hopen : ∀ kind ∈ kinds, kind ∉ closedKinds) : closed a = false :=
  h.closed_eq_false rfl (hopen _ hkind)

end Alike

namespace Akin

variable {free eased : Prop} {closed : Node → Bool} {r : Node → Node → Prop}
  (h : Akin free eased closed r)
include h

theorem closed_eq_false {a : Node} {kind : String} (hkind : a.kind = kind)
    (hopen : kind ∉ closedKinds ++ keepingKinds) : closed a = false := by
  rw [← Bool.not_eq_true]
  intro hclosed
  exact hopen (hkind ▸ List.mem_append.2 (h.kind_mem_or hclosed))

theorem closed_eq_false_of_mem {a : Node} {kinds : List String} (hkind : a.kind ∈ kinds)
    (hopen : ∀ kind ∈ kinds, kind ∉ closedKinds ++ keepingKinds) : closed a = false :=
  h.closed_eq_false rfl (hopen _ hkind)

section

variable {a b : Node} (hab : r a b)
include hab

theorem isSignificant_eq : a.isSignificant = b.isSignificant := by
  rw [isSignificant, isSignificant, isComment, isComment, h.kind_eq hab, h.named_eq hab]

theorem isFunction_eq : a.isFunction = b.isFunction := by
  rw [isFunction, isFunction, h.kind_eq hab]

end

theorem isSignificant_eq_of_eased {a b : Node} (hab : Eased eased r a b) :
    a.isSignificant = b.isSignificant := by
  rcases hab with hab | ⟨-, hab⟩
  · exact h.isSignificant_eq hab
  · rw [isSignificant_of_isExpression hab.isExpression, hab.isSignificant]

theorem isSignificant_eq_of_housed {n a b : Node} (hab : Housed eased r n a b) :
    a.isSignificant = b.isSignificant := by
  rcases hab.braced with hab | ⟨-, hab⟩
  · exact h.isSignificant_eq_of_eased hab.toEased
  · exact hab.isSignificant_eq

theorem kind_eq_iff {a b : Node} (hab : Eased eased r a b) {kind : String}
    (hkind : kind ∉ expressionKinds) : a.kind = kind ↔ b.kind = kind :=
  hab.kind_eq_iff h.kind_eq hkind

section Open

variable {a b : Node} (hab : r a b) (ha : closed a = false)
include hab ha

theorem beneath_parts : List.Forall₂ (Beneath eased r a) a.parts b.parts :=
  (h.children hab ha).filter (fun _ => isSignificant_of_isLoose)
    fun _ _ hcd => h.isSignificant_eq_of_eased hcd.toEased

theorem parts : List.Forall₂ (Eased eased r) a.parts b.parts :=
  (h.beneath_parts hab ha).imp fun _ _ => Beneath.toEased

theorem parts_of_takes (htakes : eased → ∀ c ∈ a.children, a.takes c = false) :
    List.Forall₂ r a.parts b.parts := by
  refine (forall₂_mem (h.beneath_parts hab ha)).imp ?_
  rintro c d ⟨hc, -, hcd⟩
  exact hcd.strict fun heased => htakes heased c (mem_children_of_mem_parts hc)

theorem parts_of_kind (hkind : placesOf a.kind = []) : List.Forall₂ r a.parts b.parts :=
  h.parts_of_takes hab ha fun _ c _ => takes_eq_false_of_kind hkind c

theorem beneath_child? (field : String) :
    Option.Rel (Beneath eased r a) (a.child? field) (b.child? field) :=
  (h.children hab ha).find? (fun _ hc => field_ne_of_isLoose hc field)
    fun _ _ hcd => by rw [hcd.field_eq]

theorem child? (field : String) : Option.Rel (Eased eased r) (a.child? field) (b.child? field) :=
  rel_imp (fun _ _ => Beneath.toEased) (h.beneath_child? hab ha field)

theorem child?_of_takes {field : String}
    (htakes : eased → ∀ c, a.child? field = some c → a.takes c = false) :
    Option.Rel r (a.child? field) (b.child? field) := by
  rcases rel_cases (h.beneath_child? hab ha field) with ⟨hc, hd⟩ | ⟨c, d, hc, hd, hcd⟩
  · rw [hc, hd]
    exact .none
  · rw [hc, hd]
    exact .some (hcd.strict fun heased => htakes heased c hc)

theorem child?_of_field {field : String} (hfield : some field ∉ placesOf a.kind) :
    Option.Rel r (a.child? field) (b.child? field) :=
  h.child?_of_takes hab ha fun _ _ hc =>
    takes_eq_false_of_field (by rwa [field_of_child? hc])

theorem isSome_child?_eq (field : String) : (a.child? field).isSome = (b.child? field).isSome :=
  isSome_eq_of_rel (h.child? hab ha field)

theorem operator?_eq : a.operator? = b.operator? :=
  map_eq_of_rel (fun _ _ hcd => h.kind_eq hcd)
    (h.child?_of_field hab ha (not_mem_placesOf "operator" (by decide)))

theorem parts_filter_kind {kind : String} (hkind : kind ∉ expressionKinds) :
    List.Forall₂ (fun c d => c.kind = kind ∧ r c d) (a.parts.filter (·.kind == kind))
      (b.parts.filter (·.kind == kind)) := by
  have hsame : ∀ c d, Eased eased r c d → (c.kind == kind) = (d.kind == kind) := by
    intro c d hcd
    rw [Bool.eq_iff_iff, beq_iff_eq, beq_iff_eq]
    exact h.kind_eq_iff hcd hkind
  refine (forall₂_filter hsame (h.parts hab ha)).imp ?_
  rintro c d ⟨hcd, hc⟩
  exact ⟨eq_of_beq hc, hcd.of_kind_ne (eq_of_beq hc ▸ hkind)⟩

theorem find?_isSignificant :
    Option.Rel (Eased eased r) (a.children.find? isSignificant) (b.children.find? isSignificant) := by
  rw [← List.head?_filter, ← List.head?_filter]
  exact rel_head?_of_forall₂ (h.parts hab ha)

theorem caseStatements (htakes : eased → ∀ c ∈ a.caseStatements, a.takes c = false) :
    List.Forall₂ r a.caseStatements b.caseStatements := by
  have hrest := (h.children hab ha).eraseP (fun _ hc => field_ne_of_isLoose hc "value")
    fun _ _ hcd => by rw [hcd.field_eq]
  have hstatements : List.Forall₂ (Beneath eased r a) a.caseStatements b.caseStatements :=
    hrest.filter (fun _ => isSignificant_of_isLoose)
      fun _ _ hcd => h.isSignificant_eq_of_eased hcd.toEased
  refine (forall₂_mem hstatements).imp ?_
  rintro c d ⟨hc, -, hcd⟩
  exact hcd.strict fun heased => htakes heased c hc

end Open

section Hosts

variable {a b : Node} (hab : r a b) (hhost : a.kind ∈ hostKinds)
include hab hhost

theorem housed : Interleaved (Housed eased r a) a.children b.children := by
  cases ha : closed a with
  | true => exact h.hosted hab ha hhost
  | false => exact (h.children hab ha).imp fun _ _ => Housed.of_beneath

theorem housed_child? (field : String) :
    Option.Rel (fun c d => c.field = some field ∧ Housed eased r a c d) (a.child? field)
      (b.child? field) := by
  have hfound : Option.Rel (Housed eased r a) (a.child? field) (b.child? field) :=
    (h.housed hab hhost).find? (fun _ hc => field_ne_of_isLoose hc field)
      fun _ _ hcd => by rw [hcd.field_eq]
  rcases rel_cases hfound with ⟨hc, hd⟩ | ⟨c, d, hc, hd, hcd⟩
  · rw [hc, hd]
    exact .none
  · rw [hc, hd]
    exact .some ⟨field_of_child? hc, hcd⟩

theorem host_child? {field : String} (hbody : some field ∉ bodyPlacesOf a.kind) :
    Option.Rel (Eased eased r) (a.child? field) (b.child? field) :=
  rel_imp (fun _ _ hcd => (hcd.2.beneath (hcd.1 ▸ hbody)).toEased) (h.housed_child? hab hhost field)

theorem host_child?_of_field {field : String} (hbody : some field ∉ bodyPlacesOf a.kind)
    (hfield : some field ∉ placesOf a.kind) :
    Option.Rel r (a.child? field) (b.child? field) := by
  refine rel_imp (fun c d hcd => ?_) (h.housed_child? hab hhost field)
  exact (hcd.2.beneath (hcd.1 ▸ hbody)).strict fun _ => takes_eq_false_of_field (hcd.1 ▸ hfield)

theorem body? {field : String} (hfield : some field ∉ placesOf a.kind) :
    Option.Rel (Braced r) (a.child? field) (b.child? field) :=
  rel_imp (fun _ _ hcd => hcd.2.toBraced (hcd.1 ▸ hfield)) (h.housed_child? hab hhost field)

theorem host_operator?_eq : a.operator? = b.operator? := by
  have hplaces : ∀ kind ∈ hostKinds, some "operator" ∉ bodyPlacesOf kind := by decide
  exact map_eq_of_rel (fun _ _ hcd => h.kind_eq hcd) (h.host_child?_of_field hab hhost
    (hplaces _ hhost) (not_mem_placesOf "operator" (by decide)))

theorem housed_find?_isSignificant : Option.Rel (Housed eased r a)
    (a.children.find? isSignificant) (b.children.find? isSignificant) := by
  exact (h.housed hab hhost).find? (fun _ => isSignificant_of_isLoose)
    fun _ _ => h.isSignificant_eq_of_housed

end Hosts

variable {a b : Node} (hab : r a b)
include hab

theorem arranged_parts (hblock : a.kind ∈ blockKinds) : Arranged free r a.parts b.parts := by
  cases ha : closed a with
  | true => exact (h.statements hab ha hblock).2
  | false =>
    exact .of_forall₂ (h.parts_of_kind hab ha (placesOf_of_block hblock))

theorem isStringStatement_eq : a.isStringStatement = b.isStringStatement := by
  by_cases hkind : a.kind = "expression_statement"
  · have hparts := h.beneath_parts hab (h.closed_eq_false hkind (by decide))
    refine isStringStatement_eq_of_parts (h.kind_eq hab) hparts fun c d hcd honly => ?_
    rcases hcd.eased with hcd | ⟨-, htakes, henclosed⟩
    · rw [h.kind_eq hcd]
    · exact henclosed.string_eq hkind (isStringStatement_of_takes htakes) honly
  · rw [isStringStatement_of_ne hkind, isStringStatement_of_ne (h.kind_eq hab ▸ hkind)]

omit hab in
theorem isStringStatement_eq_of_eased {a b : Node} (hab : Eased eased r a b) :
    a.isStringStatement = b.isStringStatement := by
  rcases hab with hab | ⟨-, hab⟩
  · exact h.isStringStatement_eq hab
  · rw [isStringStatement_of_isExpression hab.isExpression,
      isStringStatement_of_isExpression hab.isExpression_right]

omit hab in
theorem isStringStatement_eq_false {as bs : List Node} (hasbs : Arranged free r as bs)
    (hplain : ∀ c ∈ as, c.isStringStatement = false) : ∀ d ∈ bs, d.isStringStatement = false := by
  obtain ⟨mid, hmid, hbs⟩ := hasbs
  intro d hd
  obtain ⟨c, hc, hcd⟩ := exists_of_mem_right hmid (hbs.perm.mem_iff.2 hd)
  rw [← h.isStringStatement_eq hcd, hplain c hc]

end Akin

/-! ## What nodes show -/

def quotedText (n : Node) : String := (n.parts.head?.map text).getD ""

def directiveTexts (n : Node) : List String :=
  match n.child? "body" with
  | some body =>
    if body.kind = "statement_block" then body.leadingStrings.map quotedText else []
  | none => []

def endsInN (n : Node) : Bool := n.text.toList.getLast? == some 'n'

theorem chunksOf_eq_of_forall₂ {as bs : List Node}
    (hasbs : List.Forall₂
      (fun c d => c.kind = d.kind ∧ (d.kind ≠ "template_substitution" → c.text = d.text)) as bs) :
    chunksOf as = chunksOf bs := by
  induction hasbs with
  | nil => rfl
  | @cons c d as bs hcd _ ih =>
    rw [chunksOf, chunksOf, hcd.1, ih]
    split
    · rfl
    · rw [hcd.2 ‹_›]

/-! ## Nodes in nodes -/

theorem exportedAmong_eq (outer : Node) (children : List Node) :
    exportedAmong outer children =
      ((children.find? fun c => c.field == some "declaration").map exported).getD outer := by
  induction children with
  | nil => rfl
  | cons c rest ih =>
    rw [exportedAmong, List.find?_cons]
    by_cases hfield : c.field = some "declaration"
    · simp [hfield]
    · rw [if_neg hfield, ih, beq_false_of_ne hfield]

theorem exported_of_export {n : Node} (h : n.kind = "export_statement") :
    n.exported = ((n.child? "declaration").map exported).getD n := by
  cases n
  rw [exported, exportedAmong_eq]
  exact if_pos h

theorem exported_of_ne {n : Node} (h : n.kind ≠ "export_statement") : n.exported = n := by
  cases n
  rw [exported]
  exact if_neg h

theorem chain_eq (n : Node) : n.chain = chainAt n.children := by
  cases n
  rw [chain]

theorem chainAt_eq (children : List Node) :
    chainAt children =
      match children.find? fun c => c.field == some "alternative" with
      | none => ([], .open)
      | some c =>
        if c.kind = "else_clause" then chainElse c.children
        else if c.kind = "if_statement" then (c :: c.chain.1, c.chain.2)
        else ([], .otherwise (some c)) := by
  induction children with
  | nil => rfl
  | cons c rest ih =>
    obtain ⟨label, children⟩ := c
    rw [chainAt, List.find?_cons]
    by_cases hfield : (⟨label, children⟩ : Node).field = some "alternative"
    · rw [if_pos hfield, hfield]
      simp only [chain_eq]
      rfl
    · rw [if_neg hfield, ih, beq_false_of_ne hfield]

theorem chainElse_eq (children : List Node) :
    chainElse children =
      match children.find? isSignificant with
      | none => ([], .otherwise none)
      | some c =>
        if c.kind = "if_statement" then (c :: c.chain.1, c.chain.2)
        else ([], .otherwise (some c)) := by
  induction children with
  | nil => rfl
  | cons c rest ih =>
    rw [chainElse, List.find?_cons]
    cases c.isSignificant
    · rw [if_neg (by decide), ih]
    · rfl

def EndsAlike (r : Node → Node → Prop) : ChainEnd → ChainEnd → Prop
  | .open, .open => True
  | .otherwise a?, .otherwise b? => Option.Rel (Braced r) a? b?
  | _, _ => False

def ChainsAlike (r : Node → Node → Prop) (chain chain' : List Node × ChainEnd) : Prop :=
  List.Forall₂ (fun c d => c.kind = "if_statement" ∧ r c d) chain.1 chain'.1 ∧
    EndsAlike r chain.2 chain'.2

namespace Akin

variable {free eased : Prop} {closed : Node → Bool} {r : Node → Node → Prop}
  (h : Akin free eased closed r)
include h

theorem bare {a : Node} : ∀ {b : Node}, Eased eased r a b → r a.bare b.bare := by
  induction a using Node.induction with
  | node a ih =>
    have hstrict : ∀ {b : Node}, r a b → r a.bare b.bare := by
      intro b hab
      by_cases hkind : a.kind = "parenthesized_expression"
      · rw [bare_of_parentheses hkind, bare_of_parentheses (h.kind_eq hab ▸ hkind)]
        have hopen := h.closed_eq_false hkind (by decide)
        rcases rel_cases (h.find?_isSignificant hab hopen) with ⟨hc, hd⟩ | ⟨c, d, hc, hd, hcd⟩
        · rw [hc, hd]
          exact hab
        · rw [hc, hd]
          exact ih c (List.mem_of_find?_eq_some hc) hcd
      · rwa [bare_of_ne hkind, bare_of_ne (h.kind_eq hab ▸ hkind)]
    rintro b (hab | ⟨-, hab⟩)
    · exact hstrict hab
    · obtain ⟨inner, hinner, hab'⟩ := hab.inside
      rw [hab.bare_eq hinner]
      exact hstrict hab'

theorem exported {a : Node} : ∀ {b : Node}, r a b → r a.exported b.exported := by
  induction a using Node.induction with
  | node a ih =>
    intro b hab
    by_cases hkind : a.kind = "export_statement"
    · rw [exported_of_export hkind, exported_of_export (h.kind_eq hab ▸ hkind)]
      have hplace : some "declaration" ∉ placesOf a.kind := by
        rw [hkind]
        decide
      rcases rel_cases (h.child?_of_field hab (h.closed_eq_false hkind (by decide)) hplace) with
        ⟨hc, hd⟩ | ⟨c, d, hc, hd, hcd⟩
      · rw [hc, hd]
        exact hab
      · rw [hc, hd]
        exact ih c (mem_children_of_child? hc) hcd
    · rwa [exported_of_ne hkind, exported_of_ne (h.kind_eq hab ▸ hkind)]

theorem gatheredOf {n : Node} (hn : n.kind = "sequence_expression") {as bs : List Node}
    (hnested : ∀ c ∈ as, ∀ d, r c d → c.kind = "sequence_expression" →
      List.Forall₂ (Eased eased r) c.gathered d.gathered)
    (hasbs : Interleaved (Beneath eased r n) as bs) :
    List.Forall₂ (Eased eased r) (gatheredOf as).1 (gatheredOf bs).1 ∧
      List.Forall₂ (Eased eased r) (gatheredOf as).2 (gatheredOf bs).2 := by
  induction hasbs with
  | nil => exact ⟨.nil, .nil⟩
  | @both a b as bs hab _ ih =>
    obtain ⟨ha, hrest⟩ := List.forall_mem_cons.1 hnested
    obtain ⟨hown, hbelow⟩ := ih hrest
    simp only [Node.gatheredOf]
    rw [h.isSignificant_eq_of_eased hab.toEased]
    split
    · exact ⟨hown, hbelow⟩
    · rcases hab.eased with hab' | ⟨-, htakes, henclosed⟩
      · rw [← h.kind_eq hab']
        split
        · exact ⟨hown, List.rel_append hbelow (ha b hab' ‹_›)⟩
        · exact ⟨.cons hab.toEased hown, hbelow⟩
      · have hb : b.kind ≠ "sequence_expression" := by
          rw [henclosed.kind]
          decide
        rw [if_neg (kind_ne_of_takes htakes hn), if_neg hb]
        exact ⟨.cons hab.toEased hown, hbelow⟩
  | left ha _ ih =>
    simp only [Node.gatheredOf, isSignificant_of_isLoose ha]
    exact ih (List.forall_mem_cons.1 hnested).2
  | right hb _ ih =>
    simp only [Node.gatheredOf, isSignificant_of_isLoose hb]
    exact ih hnested

theorem gathered {a : Node} : ∀ {b : Node}, r a b → a.kind = "sequence_expression" →
    List.Forall₂ (Eased eased r) a.gathered b.gathered := by
  induction a using Node.induction with
  | node a ih =>
    intro b hab hkind
    obtain ⟨hown, hbelow⟩ := h.gatheredOf hkind (fun c hc d => ih c hc)
      (h.children hab (h.closed_eq_false hkind (by decide)))
    obtain ⟨label, children⟩ := a
    obtain ⟨label', children'⟩ := b
    rw [Node.gathered, Node.gathered]
    exact List.rel_append hown hbelow

theorem chains {a : Node} : ∀ {b : Node}, r a b →
    (a.kind = "if_statement" → ChainsAlike r a.chain b.chain) ∧
      (a.kind = "else_clause" → ChainsAlike r (chainElse a.children) (chainElse b.children)) := by
  induction a using Node.induction with
  | node a ih =>
    intro b hab
    have hlink : ∀ {c d : Node}, c ∈ a.children → r c d → c.kind = "if_statement" →
        ChainsAlike r (c :: c.chain.1, c.chain.2) (d :: d.chain.1, d.chain.2) := by
      intro c d hc hcd hkind
      obtain ⟨hlinks, hend⟩ := (ih c hc hcd).1 hkind
      exact ⟨.cons ⟨hkind, hcd⟩ hlinks, hend⟩
    constructor
    · intro hkind
      have hfound := h.housed_child? hab (by rw [hkind]; decide) "alternative"
      rw [chain_eq, chain_eq, chainAt_eq, chainAt_eq]
      rw [Node.child?, Node.child?] at hfound
      rcases rel_cases hfound with ⟨hc, hd⟩ | ⟨c, d, hc, hd, hfield, hcd⟩
      · rw [hc, hd]
        exact ⟨.nil, trivial⟩
      · have hmem := List.mem_of_find?_eq_some hc
        have hplace : c.field ∉ placesOf a.kind := by
          rw [hkind, hfield]
          decide
        rw [hc, hd]
        dsimp only
        rcases hcd.braced with hcd | ⟨hhosts, hcd⟩
        · have hcd := hcd.strict fun _ => takes_eq_false_of_field hplace
          rw [← h.kind_eq hcd]
          split
          · exact (ih c hmem hcd).2 ‹_›
          · split
            · exact hlink hmem hcd ‹_›
            · exact ⟨.nil, .some (.inl hcd)⟩
        · -- Braces only come where the chain does not go on.
          obtain ⟨helse, hif⟩ := kind_ne_of_hosts hhosts (.inr hfield)
          rw [if_neg helse, if_neg hif, hcd.kind, if_neg (by decide), if_neg (by decide)]
          exact ⟨.nil, .some (.inr hcd)⟩
    · intro hkind
      have hfirst := h.housed_find?_isSignificant hab (by rw [hkind]; decide)
      rw [chainElse_eq, chainElse_eq]
      rcases rel_cases hfirst with ⟨hc, hd⟩ | ⟨c, d, hc, hd, hcd⟩
      · rw [hc, hd]
        exact ⟨.nil, .none⟩
      · have hplace : c.field ∉ placesOf a.kind := by
          rw [hkind]
          exact List.not_mem_nil
        rw [hc, hd]
        dsimp only
        rcases hcd.braced with hcd | ⟨hhosts, hcd⟩
        · have hcd := hcd.strict fun _ => takes_eq_false_of_field hplace
          rw [← h.kind_eq hcd]
          split
          · exact hlink (List.mem_of_find?_eq_some hc) hcd ‹_›
          · exact ⟨.nil, .some (.inl hcd)⟩
        · have hif := (kind_ne_of_hosts hhosts (.inl hkind)).2
          rw [if_neg hif, hcd.kind, if_neg (by decide)]
          exact ⟨.nil, .some (.inr hcd)⟩

end Akin

end Node

end Fingerprint
