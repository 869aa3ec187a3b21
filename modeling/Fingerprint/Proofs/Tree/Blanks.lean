import Mathlib.Tactic.Common
import Fingerprint.Proofs.Tree.Alike
/-!
# Statements without their declarations

Where the tokens of a function look for statements, its variable declarations can be replaced by
empty statements.  What a node is taken for there depends on how it was reached: a switch lists
cases, a case lists statements after its test, and the clauses of a `try` have a statement for a
body.  Declarations elsewhere stay, those in the headers of loops among them.

All that is read of a statement is read of what is left of it.
-/

namespace Fingerprint

/-- What the tokens of statements take a node for. -/
inductive Role where
  | statement
  /-- What follows the block of a `try`. -/
  | clause
  /-- The cases of a switch. -/
  | cases
  | case
  deriving DecidableEq, Repr

namespace Role

/-- The fields of the children in which statements look for statements, and what they take these
children for. -/
def fields : List (String × List (String × Role)) :=
  [("expression_statement", []), ("return_statement", []), ("throw_statement", []),
    ("break_statement", []), ("continue_statement", []), ("debugger_statement", []),
    ("function_declaration", []), ("generator_function_declaration", []),
    ("class_declaration", []),
    ("export_statement", [("declaration", .statement)]),
    ("if_statement", [("consequence", .statement), ("alternative", .statement)]),
    ("for_statement", [("body", .statement)]),
    ("for_in_statement", [("body", .statement)]),
    ("while_statement", [("body", .statement)]),
    ("do_statement", [("body", .statement)]),
    ("labeled_statement", [("body", .statement)]),
    ("with_statement", [("body", .statement)]),
    ("try_statement", [("body", .statement), ("handler", .clause), ("finalizer", .clause)]),
    ("switch_statement", [("body", .cases)])]

/-- What the tokens take a child for, if they look for statements in it.  Blocks and whatever has
no token of its own are made of statements. -/
def below (kind : String) (field : Option String) : Role → Option Role
  | .statement =>
    match fields.lookup kind with
    | some held => field.bind fun name => held.lookup name
    | none => some .statement
  | .clause => if field = some "body" then some .statement else none
  | .cases => some .case
  | .case => if field = some "value" then none else some .statement

end Role

namespace Node

def isBlank (role : Role) (n : Node) : Bool :=
  role == .statement && Form.declarationKinds.contains n.kind

mutual

/-- The node with an empty statement in place of each declaration that stands for a statement. -/
def blanked : Role → Node → Node
  | role, ⟨label, children⟩ =>
    if isBlank role ⟨label, children⟩ then ⟨{ label with kind := "empty_statement" }, []⟩
    else ⟨label, blankedAmong role label.kind children⟩

def blankedAmong : Role → String → List Node → List Node
  | _, _, [] => []
  | role, kind, c :: rest =>
    (match role.below kind c.field with
      | some inner => blanked inner c
      | none => c) :: blankedAmong role kind rest

end

def blankedAt : Option Role → Node → Node
  | some role, c => c.blanked role
  | none, c => c

theorem blankedAmong_eq (role : Role) (kind : String) (children : List Node) :
    blankedAmong role kind children =
      children.map fun c => blankedAt (role.below kind c.field) c := by
  induction children with
  | nil => rfl
  | cons c rest ih =>
    rw [blankedAmong, ih, List.map_cons]
    cases role.below kind c.field <;> rfl

theorem blanked_of_isBlank {role : Role} {n : Node} (h : n.isBlank role = true) :
    n.blanked role = ⟨{ n.label with kind := "empty_statement" }, []⟩ := by
  cases n
  rw [blanked, if_pos h]

theorem blanked_of_isBlank_eq_false {role : Role} {n : Node} (h : n.isBlank role = false) :
    n.blanked role =
      ⟨n.label, n.children.map fun c => blankedAt (role.below n.kind c.field) c⟩ := by
  cases n
  rw [blanked, if_neg (by rw [h]; decide), blankedAmong_eq]
  rfl

theorem isBlank_eq_false {role : Role} {n : Node} (h : n.kind ∉ Form.declarationKinds) :
    n.isBlank role = false := by
  rw [isBlank, Bool.and_eq_false_iff]
  right
  rwa [← Bool.not_eq_true, List.contains_iff_mem]

theorem isBlank_eq_false_of_kind {role : Role} {n : Node} {kind : String} (hkind : n.kind = kind)
    (h : kind ∉ Form.declarationKinds) : n.isBlank role = false :=
  isBlank_eq_false (hkind ▸ h)

/-! ## What a node is by itself -/

theorem kind_blanked {role : Role} {n : Node} (h : n.isBlank role = false) :
    (n.blanked role).kind = n.kind := by
  rw [blanked_of_isBlank_eq_false h]
  rfl

/-- Of the kinds of nodes only declarations are lost, and empty statements come in. -/
theorem kind_blanked_eq_iff {role : Role} {n : Node} {kind : String}
    (h : kind ∉ "empty_statement" :: Form.declarationKinds) :
    (n.blanked role).kind = kind ↔ n.kind = kind := by
  cases hblank : n.isBlank role with
  | false => rw [kind_blanked hblank]
  | true =>
    rw [blanked_of_isBlank hblank]
    rw [isBlank, Bool.and_eq_true, List.contains_iff_mem] at hblank
    refine iff_of_false (fun hkind => h ?_) fun hkind => h ?_
    · exact List.mem_cons.2 (.inl hkind.symm)
    · exact List.mem_cons_of_mem _ (hkind ▸ hblank.2)

theorem kind_blankedAt_eq_iff {role? : Option Role} {n : Node} {kind : String}
    (h : kind ∉ "empty_statement" :: Form.declarationKinds) :
    (n.blankedAt role?).kind = kind ↔ n.kind = kind := by
  cases role? with
  | none => rfl
  | some role => exact kind_blanked_eq_iff h

/-- What is left of a node differs from it in its kind and in what is below it. -/
theorem exists_label_blankedAt (role? : Option Role) (n : Node) :
    ∃ kind, (n.blankedAt role?).label = { n.label with kind } := by
  cases role? with
  | none => exact ⟨n.kind, rfl⟩
  | some role =>
    rw [blankedAt]
    cases hblank : n.isBlank role with
    | false => exact ⟨n.kind, by rw [blanked_of_isBlank_eq_false hblank]; rfl⟩
    | true => exact ⟨"empty_statement", by rw [blanked_of_isBlank hblank]⟩

@[simp] theorem field_blankedAt (role? : Option Role) (n : Node) :
    (n.blankedAt role?).field = n.field := by
  obtain ⟨kind, hlabel⟩ := exists_label_blankedAt role? n
  rw [field, hlabel]
  rfl

@[simp] theorem isSignificant_blankedAt (role? : Option Role) (n : Node) :
    (n.blankedAt role?).isSignificant = n.isSignificant := by
  have hcomment : (n.blankedAt role?).isComment = n.isComment := by
    rw [isComment, isComment, Bool.eq_iff_iff, Bool.or_eq_true, Bool.or_eq_true, beq_iff_eq,
      beq_iff_eq, beq_iff_eq, beq_iff_eq, kind_blankedAt_eq_iff (by decide),
      kind_blankedAt_eq_iff (by decide)]
  obtain ⟨kind, hlabel⟩ := exists_label_blankedAt role? n
  rw [isSignificant, isSignificant, hcomment, named, hlabel]
  rfl

/-! ## Children -/

section Children

variable {role : Role} {n : Node} (h : n.isBlank role = false)
include h

theorem children_blanked :
    (n.blanked role).children =
      n.children.map fun c => blankedAt (role.below n.kind c.field) c := by
  rw [blanked_of_isBlank_eq_false h]

theorem parts_blanked :
    (n.blanked role).parts = n.parts.map fun c => blankedAt (role.below n.kind c.field) c := by
  rw [parts, parts, children_blanked h, List.filter_map]
  congr 2
  funext c
  exact isSignificant_blankedAt _ c

theorem child?_blanked (field : String) :
    (n.blanked role).child? field =
      (n.child? field).map (blankedAt (role.below n.kind (some field))) := by
  rw [child?, child?, children_blanked h, List.find?_map]
  have hfield : ((fun c : Node => c.field == some field) ∘
      fun c => blankedAt (role.below n.kind c.field) c) = fun c => c.field == some field := by
    funext c
    rw [Function.comp_apply, field_blankedAt]
  rw [hfield]
  refine Option.map_congr fun c hc => ?_
  rw [field_of_child? (Option.mem_def.1 hc)]

theorem blanked_eq_self (hbelow : ∀ field, role.below n.kind field = none) :
    n.blanked role = n := by
  rw [blanked_of_isBlank_eq_false h]
  simp only [hbelow, blankedAt, List.map_id']
  cases n
  rfl

end Children

/-! ## Statements in statements -/

def Blanks (a b : Node) : Prop := b = a ∨ b = a.blanked .statement

theorem blanks_blanked (n : Node) : Blanks n (n.blanked .statement) := .inr rfl

theorem blanks_blankedAt {role? : Option Role} (h : role? = none ∨ role? = some .statement)
    (n : Node) : Blanks n (n.blankedAt role?) := by
  rcases h with rfl | rfl
  · exact .inl rfl
  · exact .inr rfl

theorem below_expressionStatement (field : Option String) :
    Role.statement.below "expression_statement" field = none := by
  cases field <;> rfl

theorem blanked_of_expressionStatement {n : Node} (h : n.kind = "expression_statement") :
    n.blanked .statement = n :=
  blanked_eq_self (isBlank_eq_false_of_kind h (by decide)) fun field => by
    rw [h, below_expressionStatement]

theorem blanked_of_isStringStatement {n : Node} (h : n.isStringStatement = true) :
    n.blanked .statement = n := by
  rw [isStringStatement, Bool.and_eq_true, beq_iff_eq] at h
  exact blanked_of_expressionStatement h.1

theorem isStringStatement_blanked (n : Node) :
    (n.blanked .statement).isStringStatement = n.isStringStatement := by
  by_cases hkind : n.kind = "expression_statement"
  · rw [blanked_of_expressionStatement hkind]
  · rw [isStringStatement_of_ne hkind,
      isStringStatement_of_ne (mt (kind_blanked_eq_iff (by decide)).1 hkind)]

/-! ### Exports and chains of conditions -/

theorem exported_blanked (n : Node) :
    (n.blanked .statement).exported = n.exported.blanked .statement := by
  induction n using Node.induction with
  | node n ih =>
    by_cases hkind : n.kind = "export_statement"
    · have hblank : n.isBlank .statement = false := isBlank_eq_false_of_kind hkind (by decide)
      have hbelow : Role.statement.below n.kind (some "declaration") = some .statement := by
        rw [hkind]
        rfl
      rw [exported_of_export hkind, exported_of_export ((kind_blanked hblank).trans hkind),
        child?_blanked hblank, hbelow]
      cases hc : n.child? "declaration" with
      | none => rfl
      | some c => exact ih c (mem_children_of_child? hc)
    · rw [exported_of_ne hkind,
        exported_of_ne (mt (kind_blanked_eq_iff (by decide)).1 hkind)]

theorem links_kind (n : Node) :
    (∀ c ∈ n.chain.1, c.kind = "if_statement") ∧
      ∀ c ∈ (chainElse n.children).1, c.kind = "if_statement" := by
  induction n using Node.induction with
  | node n ih =>
    rw [chain_eq, chainAt_eq, chainElse_eq]
    refine ⟨?_, ?_⟩
    · cases hc : n.children.find? (·.field == some "alternative") with
      | none => exact List.forall_mem_nil _
      | some c =>
        have hnext := ih c (List.mem_of_find?_eq_some hc)
        dsimp only
        split
        · exact hnext.2
        · split
          · exact List.forall_mem_cons.2 ⟨‹_›, hnext.1⟩
          · exact List.forall_mem_nil _
    · cases hc : n.children.find? isSignificant with
      | none => exact List.forall_mem_nil _
      | some c =>
        dsimp only
        split
        · exact List.forall_mem_cons.2 ⟨‹_›, (ih c (List.mem_of_find?_eq_some hc)).1⟩
        · exact List.forall_mem_nil _

def blankedChain : List Node × ChainEnd → List Node × ChainEnd
  | (links, .open) => (links.map (blanked .statement), .open)
  | (links, .otherwise statement) =>
    (links.map (blanked .statement), .otherwise (statement.map (blanked .statement)))

theorem blankedChain_cons (n : Node) (chain : List Node × ChainEnd) :
    blankedChain (n :: chain.1, chain.2) =
      (n.blanked .statement :: (blankedChain chain).1, (blankedChain chain).2) := by
  obtain ⟨links, _ | statement⟩ := chain <;> rfl

theorem next_blanked {n : Node}
    (h : n.kind = "if_statement" → (n.blanked .statement).chain = blankedChain n.chain) :
    (if (n.blanked .statement).kind = "if_statement" then
        (n.blanked .statement :: (n.blanked .statement).chain.1, (n.blanked .statement).chain.2)
      else ([], .otherwise (some (n.blanked .statement)))) =
      blankedChain (if n.kind = "if_statement" then (n :: n.chain.1, n.chain.2)
        else ([], .otherwise (some n))) := by
  have hsame : (n.blanked .statement).kind = "if_statement" ↔ n.kind = "if_statement" :=
    kind_blanked_eq_iff (by decide)
  by_cases hkind : n.kind = "if_statement"
  · rw [if_pos hkind, if_pos (hsame.2 hkind), blankedChain_cons, h hkind]
  · rw [if_neg hkind, if_neg (mt hsame.1 hkind)]
    rfl

theorem alternative_blanked {n : Node} (h : n.kind = "if_statement") :
    (n.blanked .statement).child? "alternative" =
      (n.child? "alternative").map (blanked .statement) := by
  rw [child?_blanked (isBlank_eq_false_of_kind h (by decide)), h]
  rfl

theorem firstPart_blanked {n : Node} (h : n.kind = "else_clause") :
    (n.blanked .statement).children.find? isSignificant =
      (n.children.find? isSignificant).map (blanked .statement) := by
  have hparts : (n.blanked .statement).parts = n.parts.map (blanked .statement) := by
    rw [parts_blanked (isBlank_eq_false_of_kind h (by decide)), h]
    rfl
  rw [← List.head?_filter, ← List.head?_filter]
  exact (congrArg List.head? hparts).trans List.head?_map

theorem chains_blanked (n : Node) :
    (n.kind = "if_statement" → (n.blanked .statement).chain = blankedChain n.chain) ∧
      (n.kind = "else_clause" →
        chainElse (n.blanked .statement).children = blankedChain (chainElse n.children)) := by
  induction n using Node.induction with
  | node n ih =>
    refine ⟨fun hkind => ?_, fun hkind => ?_⟩
    · have hfound := alternative_blanked hkind
      rw [child?, child?] at hfound
      rw [chain_eq, chain_eq, chainAt_eq, chainAt_eq, hfound]
      cases hc : n.children.find? (·.field == some "alternative") with
      | none => rfl
      | some c =>
        have hmem := List.mem_of_find?_eq_some hc
        have hsame : (c.blanked .statement).kind = "else_clause" ↔ c.kind = "else_clause" :=
          kind_blanked_eq_iff (by decide)
        rw [Option.map_some]
        by_cases helse : c.kind = "else_clause"
        · simp only [if_pos helse, if_pos (hsame.2 helse), (ih c hmem).2 helse]
        · simp only [if_neg helse, if_neg (mt hsame.1 helse), next_blanked (ih c hmem).1]
    · rw [chainElse_eq, chainElse_eq, firstPart_blanked hkind]
      cases hc : n.children.find? isSignificant with
      | none => rfl
      | some c => exact next_blanked (ih c (List.mem_of_find?_eq_some hc)).1

theorem chain_blanked {n : Node} (h : n.kind = "if_statement") :
    (n.blanked .statement).chain = blankedChain n.chain :=
  (chains_blanked n).1 h

/-! ### Bodies -/

theorem bodyStatements_blanked (n : Node) :
    (n.blanked .statement).bodyStatements = n.bodyStatements.map (blanked .statement) := by
  have hsame : (n.blanked .statement).kind = "statement_block" ↔ n.kind = "statement_block" :=
    kind_blanked_eq_iff (by decide)
  rw [bodyStatements, bodyStatements]
  by_cases hkind : n.kind = "statement_block"
  · rw [if_pos hkind, if_pos (hsame.2 hkind),
      parts_blanked (isBlank_eq_false_of_kind hkind (by decide)), hkind]
    rfl
  · rw [if_neg hkind, if_neg (mt hsame.1 hkind)]
    rfl

theorem body_blanked {role : Role} {n : Node} (h : n.isBlank role = false) {field : String}
    (hbelow : role.below n.kind (some field) = some .statement) :
    (n.blanked role).bodyUnder [field] = (n.bodyUnder [field]).map (blanked .statement) := by
  rw [bodyUnder, bodyUnder, child?_blanked h, hbelow]
  cases n.child? field with
  | none => rfl
  | some c => exact bodyStatements_blanked c

theorem clauseBody_blanked {n : Node} (h : n.isBlank .statement = false) {field : String}
    (hbelow : Role.statement.below n.kind (some field) = some .clause) :
    (n.blanked .statement).bodyUnder [field, "body"] =
      (n.bodyUnder [field, "body"]).map (blanked .statement) := by
  rw [bodyUnder, bodyUnder, child?_blanked h, hbelow]
  cases n.child? field with
  | none => rfl
  | some c => exact body_blanked (rfl : c.isBlank .clause = false) rfl

theorem cases_blanked {n : Node} (h : n.isBlank .statement = false)
    (hbelow : Role.statement.below n.kind (some "body") = some .cases) :
    (n.blanked .statement).cases = n.cases.map (blanked .case) := by
  rw [cases, cases, child?_blanked h, hbelow]
  cases n.child? "body" with
  | none => rfl
  | some c => exact parts_blanked (rfl : c.isBlank .cases = false)

theorem caseStatements_blanked (n : Node) :
    List.Forall₂ Blanks n.caseStatements (n.blanked .case).caseStatements := by
  have hrest : (n.blanked .case).caseStatements =
      n.caseStatements.map fun c => blankedAt (Role.case.below n.kind c.field) c := by
    rw [caseStatements, caseStatements, children_blanked (rfl : n.isBlank .case = false),
      List.eraseP_map, List.filter_map]
    congr 2
    · funext c
      exact isSignificant_blankedAt _ c
    · congr 1
      funext c
      rw [Function.comp_apply, field_blankedAt]
  rw [hrest, List.forall₂_map_right_iff]
  refine List.forall₂_same.2 fun c _ => blanks_blankedAt ?_ c
  rw [Role.below]
  split
  · exact .inl rfl
  · exact .inr rfl

theorem blanks_map (statements : List Node) :
    List.Forall₂ Blanks statements (statements.map (blanked .statement)) := by
  rw [List.forall₂_map_right_iff]
  exact List.forall₂_same.2 fun n _ => blanks_blanked n

/-- The statements in a statement are those of what is left of it, blanked in their turn. -/
theorem inner_blanked {n : Node} (h : n.isBlank .statement = false) :
    List.Forall₂ Blanks n.inner (n.blanked .statement).inner := by
  rw [inner, inner, kind_blanked h]
  split
  · rw [parts_blanked h, ‹n.kind = _›]
    exact blanks_map _
  iterate 6
    · rw [body_blanked h (by rw [‹n.kind = _›]; rfl)]
      exact blanks_map _
  · rename_i hkind
    rw [body_blanked h (by rw [hkind]; rfl), clauseBody_blanked h (by rw [hkind]; rfl),
      clauseBody_blanked h (by rw [hkind]; rfl), ← List.map_append, ← List.map_append]
    exact blanks_map _
  · rw [cases_blanked h (by rw [‹n.kind = _›]; rfl), List.flatMap_map]
    exact List.rel_flatMap (List.forall₂_same.2 fun c _ => rfl)
      fun c d hcd => hcd ▸ caseStatements_blanked c
  · exact .nil

end Node

end Fingerprint
