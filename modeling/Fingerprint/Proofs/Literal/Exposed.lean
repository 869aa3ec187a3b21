import Fingerprint.Proofs.Literal.Collected
import Fingerprint.Proofs.Signature.Faults
import Fingerprint.Proofs.Tree.Alike
import Fingerprint.Proofs.Tree.Offers
/-!
# All literals below a root

The literals of a root are those of the nodes below it that are not inside of another literal or of
a directive: each of them is there, nothing else is, and they ascend.
-/

namespace Fingerprint

/-! ## What a node stands for -/

namespace Signal

variable {α : Type} {p : Prop} [Decidable p] {a b : α}

theorem data_unless_iff :
    (if p then prune else emitAndStop a).data = some b ↔ ¬p ∧ a = b := by
  by_cases hp : p
  · rw [if_pos hp]
    exact iff_of_false (nomatch ·) fun h => h.1 hp
  · rw [if_neg hp, and_iff_right hp, emitAndStop, Option.some_inj]

theorem descend_unless : (if p then prune else emitAndStop a : Signal α).descend = false := by
  split <;> rfl

end Signal

namespace Literal

/-- The literal of a numeral, with or without a minus in front: its value if that is not too common,
or its text if it has no finite value. -/
inductive OfNumeral (negated : Bool) (text : String) : Literal → Prop
  | value {x : Double} (hvalue : Numeral.value? text = some x)
      (hrare : isCommon (if negated then -x else x) = false) :
      OfNumeral negated text (.number (if negated then -x else x))
  | text (hvalue : Numeral.value? text = none) (hne : text ≠ "") :
      OfNumeral negated text (.text (if negated then "-" ++ text else text))

theorem ofNumeral_data_iff {negated : Bool} {text : String} {l : Literal} :
    (ofNumeral negated text).data = some l ↔ OfNumeral negated text l := by
  rw [ofNumeral]
  cases hvalue : Numeral.value? text with
  | some x =>
    refine Signal.data_unless_iff.trans ?_
    rw [Bool.not_eq_true]
    constructor
    · rintro ⟨hrare, rfl⟩
      exact .value hvalue hrare
    · rintro (⟨hx, hrare⟩ | ⟨hx, -⟩)
      · cases hvalue.symm.trans hx
        exact ⟨hrare, rfl⟩
      · cases hvalue.symm.trans hx
  | none =>
    refine Signal.data_unless_iff.trans ?_
    rw [String.isEmpty_iff]
    constructor
    · rintro ⟨hne, rfl⟩
      exact .text hvalue hne
    · rintro (⟨hx, -⟩ | ⟨-, hne⟩)
      · cases hvalue.symm.trans hx
      · exact ⟨hne, rfl⟩

theorem ofText_data_iff {content : String} {l : Literal} :
    (ofText content).data = some l ↔ content ≠ "" ∧ .text content = l := by
  rw [ofText, Signal.data_unless_iff, String.isEmpty_iff]

theorem ofNumeral_descend (negated : Bool) (text : String) :
    (ofNumeral negated text).descend = false := by
  rw [ofNumeral]
  split <;> exact Signal.descend_unless

theorem ofText_descend (content : String) : (ofText content).descend = false :=
  Signal.descend_unless

end Literal

namespace Node

/-- The literals that a node stands for. -/
inductive Denotes (n : Node) : Literal → Prop
  | string {content : String} (hkind : n.kind = "string") (hcontent : n.content = .ok content)
      (hne : content ≠ "") : Denotes n (.text content)
  | number {l : Literal} (hkind : n.kind = "number") (h : Literal.OfNumeral false n.text l) :
      Denotes n l
  | negated {l : Literal} {number : Node} (hnumber : n.negatedNumber? = some number)
      (h : Literal.OfNumeral true number.text l) : Denotes n l
  | regex (hkind : n.kind = "regex") : Denotes n (.text n.regexText)
  | template (hkind : n.kind = "template_string") (hne : n.templateText ≠ "") :
      Denotes n (.text n.templateText)

def constantKinds : List String := ["true", "false", "null", "undefined"]

theorem kind_of_negatedNumber? {n number : Node} (h : n.negatedNumber? = some number) :
    n.kind = "unary_expression" := by
  rw [negatedNumber?] at h
  split at h
  · exact (‹_ ∧ _›).1
  · cases h

theorem literal_of_ne {n : Node} (hliteral : n.kind ∉ literalKinds)
    (hconstant : n.kind ∉ constantKinds) :
    n.literal = match n.negatedNumber? with
      | some number => .ok (Literal.ofNumeral true number.text)
      | none => .ok .pass := by
  rw [literal]
  split <;> first | rfl | simp_all [literalKinds, constantKinds]

theorem literal_of_constant {n : Node} (h : n.kind ∈ constantKinds) : n.literal = .ok .prune := by
  simp only [constantKinds, List.mem_cons, List.not_mem_nil, or_false] at h
  rw [literal]
  rcases h with h | h | h | h <;> simp only [h]

theorem literal_of_negatedNumber? {n number : Node} (h : n.negatedNumber? = some number) :
    n.literal = .ok (Literal.ofNumeral true number.text) := by
  rw [literal_of_ne, h]
  · rw [kind_of_negatedNumber? h]
    decide
  · rw [kind_of_negatedNumber? h]
    decide

theorem denotes_of_literal {n : Node} {signal : Signal Literal} {l : Literal}
    (h : n.literal = .ok signal) (hl : signal.data = some l) : n.Denotes l := by
  rw [literal] at h
  split at h
  · rename_i hkind
    obtain ⟨content, hcontent, rfl⟩ := map_eq_ok.1 h
    obtain ⟨hne, rfl⟩ := Literal.ofText_data_iff.1 hl
    exact .string hkind hcontent hne
  · rename_i hkind
    cases h
    exact .number hkind (Literal.ofNumeral_data_iff.1 hl)
  · rename_i hkind
    cases h
    cases hl
    exact .regex hkind
  · rename_i hkind
    cases h
    obtain ⟨hne, rfl⟩ := Literal.ofText_data_iff.1 hl
    exact .template hkind hne
  iterate 4
    · cases h
      cases hl
  · split at h
    · rename_i number hnumber
      cases h
      exact .negated hnumber (Literal.ofNumeral_data_iff.1 hl)
    · cases h
      cases hl

theorem Denotes.data_eq {n : Node} {signal : Signal Literal} {l : Literal} (hl : n.Denotes l)
    (h : n.literal = .ok signal) : signal.data = some l := by
  cases hl with
  | string hkind hcontent hne =>
    rw [literal] at h
    simp only [hkind, hcontent] at h
    cases h
    exact Literal.ofText_data_iff.2 ⟨hne, rfl⟩
  | number hkind hnumeral =>
    rw [literal] at h
    simp only [hkind] at h
    cases h
    exact Literal.ofNumeral_data_iff.2 hnumeral
  | negated hnumber hnumeral =>
    rw [literal_of_negatedNumber? hnumber] at h
    cases h
    exact Literal.ofNumeral_data_iff.2 hnumeral
  | regex hkind =>
    rw [literal] at h
    simp only [hkind] at h
    cases h
    rfl
  | template hkind hne =>
    rw [literal] at h
    simp only [hkind] at h
    cases h
    exact Literal.ofText_data_iff.2 ⟨hne, rfl⟩

/-- Whether nothing is looked for inside of a node because it is a literal. -/
def isWhole (n : Node) : Bool := literalKinds.contains n.kind || n.negatedNumber?.isSome

theorem isWhole_eq_false {n : Node} :
    n.isWhole = false ↔ n.kind ∉ literalKinds ∧ n.negatedNumber? = none := by
  rw [isWhole, Bool.or_eq_false_iff, ← Bool.not_eq_true, List.contains_iff_mem,
    Option.isSome_eq_false_iff, Option.isNone_iff_eq_none]

theorem descend_eq_false_of_literal {n : Node} {signal : Signal Literal}
    (hkind : n.kind ∈ literalKinds ∨ n.kind ∈ constantKinds) (h : n.literal = .ok signal) :
    signal.descend = false := by
  rw [literal] at h
  split at h
  · obtain ⟨content, -, rfl⟩ := map_eq_ok.1 h
    exact Literal.ofText_descend content
  · cases h
    exact Literal.ofNumeral_descend false n.text
  · cases h
    rfl
  · cases h
    exact Literal.ofText_descend n.templateText
  iterate 4
    · cases h
      rfl
  · simp_all [literalKinds, constantKinds]

theorem descends_literal_iff {n : Node} :
    Descends n.literal ↔ n.isWhole = false ∧ n.kind ∉ constantKinds := by
  rw [isWhole_eq_false]
  constructor
  · rintro ⟨signal, hsignal, hdescend⟩
    have hkind : ¬(n.kind ∈ literalKinds ∨ n.kind ∈ constantKinds) := fun h => by
      rw [descend_eq_false_of_literal h hsignal] at hdescend
      cases hdescend
    rw [not_or] at hkind
    refine ⟨⟨hkind.1, ?_⟩, hkind.2⟩
    rw [literal_of_ne hkind.1 hkind.2] at hsignal
    cases hnumber : n.negatedNumber? with
    | none => rfl
    | some number =>
      rw [hnumber] at hsignal
      cases hsignal
      rw [Literal.ofNumeral_descend] at hdescend
      cases hdescend
  · rintro ⟨⟨hliteral, hnumber⟩, hconstant⟩
    rw [literal_of_ne hliteral hconstant, hnumber]
    exact ⟨.pass, rfl, rfl⟩

end Node

/-! ## Where literals are looked for -/

namespace Site

/-- Whether nothing is looked for inside of a site: it is a literal or a directive. -/
def isSealed (s : Site) : Bool := s.isDirective || s.node.isWhole

theorem kind_of_isDirective {s : Site} (h : s.isDirective = true) :
    s.node.kind = "expression_statement" := by
  rw [isDirective, Node.isStringStatement, Bool.and_eq_true, Bool.and_eq_true] at h
  exact eq_of_beq h.1.1

theorem literal_of_ne {x : Site} (hkind : x.node.kind ≠ "expression_statement") :
    x.literal = x.node.literal := by
  rw [literal, if_neg fun hdirective => hkind (kind_of_isDirective hdirective)]

theorem literal_of_wrapper {x : Site} (hkind : x.node.kind ∈ Node.wrapperKinds) :
    x.literal = .ok .pass := by
  have hplain : ∀ kind ∈ Node.wrapperKinds, kind ≠ "expression_statement" ∧
      kind ≠ "unary_expression" ∧ kind ∉ Node.literalKinds ∧ kind ∉ Node.constantKinds := by
    decide
  obtain ⟨hstatement, hunary, hliteral, hconstant⟩ := hplain _ hkind
  have hnegated : x.node.negatedNumber? = none := if_neg fun hneg => hunary hneg.1
  rw [literal_of_ne hstatement, Node.literal_of_ne hliteral hconstant, hnegated]

theorem not_denotes_of_isDirective {s : Site} (h : s.isDirective = true) (l : Literal) :
    ¬s.node.Denotes l := by
  have hkind := kind_of_isDirective h
  intro hdenotes
  cases hdenotes <;> simp_all [Node.kind_of_negatedNumber?]

theorem descends_literal_iff {s : Site} :
    Descends s.literal ↔ s.isSealed = false ∧ s.node.kind ∉ Node.constantKinds := by
  rw [literal, isSealed]
  cases s.isDirective with
  | true =>
    refine iff_of_false ?_ fun h => Bool.false_ne_true h.1.symm
    rintro ⟨signal, hsignal, hdescend⟩
    cases hsignal
    cases hdescend
  | false => exact Node.descends_literal_iff

theorem kept?_literal_iff {s : Site} {l : Literal} (hfault : ∃ signal, s.literal = .ok signal) :
    kept? literal s = some l ↔ s.node.Denotes l := by
  obtain ⟨signal, hsignal⟩ := hfault
  have hkept : kept? literal s = signal.data := by
    rw [kept?, hsignal]
    rfl
  rw [hkept]
  rw [literal] at hsignal
  by_cases hdirective : s.isDirective = true
  · rw [if_pos hdirective] at hsignal
    cases hsignal
    exact iff_of_false (fun hdata => by cases hdata) (not_denotes_of_isDirective hdirective l)
  · rw [if_neg hdirective] at hsignal
    exact ⟨Node.denotes_of_literal hsignal, fun h => h.data_eq hsignal⟩

/-- A site strictly below a root, on the way to which there is nothing but nodes that the literals
are looked for in. -/
structure Exposed (root s : Site) : Prop where
  inside : s ∈ root.inside
  significant : s.node.isSignificant = true
  around : ∀ u ∈ root.inside, s ∈ u.inside →
    u.node.isSignificant = true ∧ u.isSealed = false ∧ u.node.kind ∉ Node.constantKinds

theorem mem_offered_literal_iff {root s : Site} : s ∈ root.offered literal ↔ root.Exposed s := by
  rw [mem_offered]
  simp only [descends_literal_iff]
  exact ⟨fun ⟨hinside, hsig, haround⟩ => ⟨hinside, hsig, haround⟩,
    fun ⟨hinside, hsig, haround⟩ => ⟨hinside, hsig, haround⟩⟩

theorem eq_torn_of_literal {s : Site} {fault : Fault} (h : s.literal = .error fault) :
    fault = .torn "string" ∧ s.node.kind = "string" ∧ s.node.isQuoted = false := by
  rw [literal] at h
  split at h
  · cases h
  · rw [Node.literal] at h
    split at h
    · rename_i hkind
      have hfault := map_eq_error.1 h
      rw [Node.content] at hfault
      split at hfault
      · cases hfault
      · rename_i hunquote
        cases hfault
        rw [hkind, Node.isQuoted, ← Text.isSome_unquote?, hunquote]
        exact ⟨rfl, rfl, rfl⟩
    iterate 7 cases h
    · split at h <;> cases h

theorem children_ne_nil_of_mem_inside {s t : Site} (h : t ∈ s.inside) : s.node.children ≠ [] := by
  intro hnil
  rw [inside, hnil] at h
  cases h

/-- **The literals below a root are those of the exposed nodes, ascending.**  If every exposed
string can be cut out of its quotes, the list ascends strictly and is made of just what these nodes
stand for, and else there is no list.  Where comments, tokens and constants are leaves, exposed are
all nodes below the root but those inside of literals and directives. -/
theorem literals_exposed (root : Site) :
    ((∀ s, root.Exposed s → s.node.kind = "string" → s.node.isQuoted = true) →
      ∃ literals, root.literals = .ok literals ∧
        literals.Pairwise (fun a b => Literal.lt a b = true) ∧
        ∀ l, l ∈ literals ↔ ∃ s, root.Exposed s ∧ s.node.Denotes l) ∧
    (∀ s, root.Exposed s → s.node.kind = "string" → s.node.isQuoted = false →
      root.literals = .error (.torn "string")) ∧
    ((∀ n ∈ root.node.descendants,
        n.isSignificant = false ∨ n.kind ∈ Node.constantKinds → n.children = []) →
      ∀ s, root.Exposed s ↔ s ∈ root.inside ∧ s.node.isSignificant = true ∧
        ∀ u ∈ root.inside, s ∈ u.inside → u.isSealed = false) := by
  refine ⟨fun hquoted => ?_, fun s hexposed hkind htorn => ?_, fun hleaves s => ?_⟩
  · have hanswers : ∀ s ∈ root.offered literal, ∃ signal, s.literal = .ok signal := by
      intro s hs
      cases hliteral : s.literal with
      | ok signal => exact ⟨signal, rfl⟩
      | error fault =>
        obtain ⟨-, hkind, htorn⟩ := eq_torn_of_literal hliteral
        rw [hquoted s (mem_offered_literal_iff.1 hs) hkind] at htorn
        cases htorn
    cases hwalk : root.walk fun _ s => s.literal with
    | error fault =>
      obtain ⟨s, hs, hfault⟩ := exists_offered_of_walk_eq_error hwalk
      obtain ⟨signal, hsignal⟩ := hanswers s hs
      cases hsignal.symm.trans hfault
    | ok found =>
      refine ⟨_, map_eq_ok.2 ⟨found, hwalk, rfl⟩, Literal.pairwise_lt_ascending _, fun l => ?_⟩
      rw [Literal.mem_ascending (isKept_of_mem_walk hwalk), toListAll_walk hwalk,
        List.mem_filterMap]
      refine exists_congr fun s => ?_
      rw [mem_offered_literal_iff]
      refine and_congr_right fun hexposed => ?_
      exact kept?_literal_iff (hanswers s (mem_offered_literal_iff.2 hexposed))
  · cases hwalk : root.walk fun _ s => s.literal with
    | error fault =>
      obtain ⟨s', -, hfault⟩ := exists_offered_of_walk_eq_error hwalk
      rw [literals, hwalk, (eq_torn_of_literal hfault).1]
      rfl
    | ok found =>
      obtain ⟨signal, hsignal⟩ :=
        forall_offered_of_walk hwalk s (mem_offered_literal_iff.2 hexposed)
      rw [isQuoted_of_literal hkind hsignal] at htorn
      cases htorn
  · constructor
    · intro h
      exact ⟨h.inside, h.significant, fun u hu hsu => (h.around u hu hsu).2.1⟩
    · rintro ⟨hinside, hsig, haround⟩
      refine ⟨hinside, hsig, fun u hu hsu => ?_⟩
      have hdescendant : u.node ∈ root.node.descendants := by
        rw [Node.descendants, ← map_node_belowAll]
        exact List.mem_map_of_mem hu
      have hinner := mt (hleaves u.node hdescendant) (children_ne_nil_of_mem_inside hsu)
      rw [not_or, Bool.not_eq_false] at hinner
      exact ⟨hinner.1, haround u hu hsu, hinner.2⟩

def negatedCall : List Row :=
  [⟨"program", true, none, 0, 11, 1⟩,
    ⟨"expression_statement", true, none, 0, 11, 2⟩,
    ⟨"call_expression", true, none, 0, 10, 2⟩,
    ⟨"identifier", true, some "function", 0, 1, 0⟩,
    ⟨"arguments", true, some "arguments", 1, 10, 5⟩,
    ⟨"(", false, none, 1, 2, 0⟩,
    ⟨"unary_expression", true, none, 2, 4, 2⟩,
    ⟨"-", false, some "operator", 2, 3, 0⟩,
    ⟨"number", true, some "argument", 3, 4, 0⟩,
    ⟨",", false, none, 4, 5, 0⟩,
    ⟨"string", true, none, 6, 9, 3⟩,
    ⟨"\"", false, none, 6, 7, 0⟩,
    ⟨"string_fragment", true, none, 7, 8, 0⟩,
    ⟨"\"", false, none, 8, 9, 0⟩,
    ⟨")", false, none, 9, 10, 0⟩,
    ⟨";", false, none, 10, 11, 0⟩]

theorem literals_exposed_negatedCall :
    (∃ root, Node.ofRows? "f(-7, \"a\");" negatedCall = some root ∧
      (∃ literals, Site.literals ⟨root, []⟩ = .ok literals ∧
        literals.Pairwise (fun a b => Literal.lt a b = true) ∧
        ∀ l, l ∈ literals ↔ ∃ s, Exposed ⟨root, []⟩ s ∧ s.node.Denotes l) ∧
      ∀ s, Exposed ⟨root, []⟩ s ↔ s ∈ inside ⟨root, []⟩ ∧ s.node.isSignificant = true ∧
        ∀ u ∈ inside ⟨root, []⟩, s ∈ u.inside → u.isSealed = false) ∧
    ∃ root, Node.ofRows? "f(\"é\n);" (Signature.stringCall 0) = some root ∧
      (∃ s, Exposed ⟨root, []⟩ s ∧ s.node.kind = "string" ∧ s.node.isQuoted = false) ∧
      Site.literals ⟨root, []⟩ = .error (.torn "string") := by
  constructor
  · have hchecked : (Node.ofRows? "f(-7, \"a\");" negatedCall).map (fun root =>
        decide (∀ n ∈ root.descendants, (n.kind = "string" → n.isQuoted = true) ∧
          (n.isSignificant = false ∨ n.kind ∈ Node.constantKinds → n.children.isEmpty))) =
        some true := by
      decide +kernel
    obtain ⟨root, hroot, hall⟩ := Option.map_eq_some_iff.1 hchecked
    have hall := of_decide_eq_true hall
    refine ⟨root, hroot, (literals_exposed ⟨root, []⟩).1 fun s hs => ?_,
      (literals_exposed ⟨root, []⟩).2.2 fun n hn h => List.isEmpty_iff.1 ((hall n hn).2 h)⟩
    refine (hall s.node ?_).1
    rw [Node.descendants, ← map_node_belowAll [] root 0]
    exact List.mem_map_of_mem hs.inside
  · have htorn : (Node.ofRows? "f(\"é\n);" (Signature.stringCall 0)).map (fun root =>
        (offered literal ⟨root, []⟩).any fun s => s.node.kind == "string" && !s.node.isQuoted) =
        some true := by
      decide +kernel
    obtain ⟨root, hroot, hany⟩ := Option.map_eq_some_iff.1 htorn
    obtain ⟨s, hs, hkind⟩ := List.any_eq_true.1 hany
    rw [Bool.and_eq_true, beq_iff_eq, Bool.not_eq_true'] at hkind
    have hexposed := mem_offered_literal_iff.1 hs
    exact ⟨root, hroot, ⟨s, hexposed, hkind⟩,
      (literals_exposed ⟨root, []⟩).2.1 s hexposed hkind.1 hkind.2⟩

/-- A string without its closing quote is torn, and there are no literals at all. -/
theorem literals_missingQuote :
    ∃ root, Node.ofRows? "f(\"é\n);" (Signature.stringCall 0) = some root ∧
      ¬∃ literals, Site.literals ⟨root, []⟩ = .ok literals := by
  have htorn : (Node.ofRows? "f(\"é\n);" (Signature.stringCall 0)).map (fun root =>
      (Site.literals ⟨root, []⟩).toOption.isNone) = some true := by
    decide +kernel
  obtain ⟨root, hroot, hnone⟩ := Option.map_eq_some_iff.1 htorn
  refine ⟨root, hroot, ?_⟩
  rintro ⟨literals, hliterals⟩
  rw [hliterals] at hnone
  cases hnone

end Site

end Fingerprint
