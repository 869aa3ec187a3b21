import Mathlib.Tactic.Common
import Fingerprint.Proofs.Function.Once
import Fingerprint.Proofs.Literal.Exposed
import Fingerprint.Proofs.Token.Statements
import Fingerprint.Proofs.Tree.Prologue
import Fingerprint.Proofs.Tree.WalksAlike
import Fingerprint.Signature.Basic
/-!
# Signatures of trees that are alike

Below roots that are alike the same functions and literals are found, with the same local names and
tokens, and in forests of one shape.  To this end the texts that names and literals are read from
have to agree as well.  Only literals see parentheses: a number in them is not negated.
-/

namespace Fingerprint

namespace Node

/-- Nodes that are alike and agree in all the texts that are read.  Of all nodes, only blocks and
hosts are not looked into child by child. -/
structure Spelled (free eased : Prop) (closed : Node → Bool) (r : Node → Node → Prop) : Prop
    extends Legible free eased closed r where
  block_or_host : ∀ {a : Node}, closed a = true → a.kind ∈ blockKinds ∨ a.kind ∈ hostKinds
  spelled : ∀ {a b : Node}, r a b → a.kind ∈ "string" :: namingKinds → a.text = b.text
  chunks_eq : ∀ {a b : Node}, r a b → a.kind = "template_string" → a.chunks = b.chunks
  regexText_eq : ∀ {a b : Node}, r a b → a.kind = "regex" → a.regexText = b.regexText

/-! ## Known texts -/

def spelledBy (n : Node) : List Node :=
  n.slots.flatMap (Slot.shown n) ++
    (if ("string" :: namingKinds).contains n.kind then [n] else []) ++
    (if n.kind = "template_string" then n.parts.filter (·.kind != "template_substitution")
      else []) ++
    if n.kind = "regex" then (n.child? "pattern").toList ++ (n.child? "flags").toList else []

theorem closed_eq_false_of_not_block {closed : Node → Bool}
    (hclosed : ∀ {a : Node}, closed a = true → a.kind ∈ blockKinds ∨ a.kind ∈ hostKinds) {a : Node}
    {kind : String} (hkind : a.kind = kind) (hopen : kind ∉ blockKinds ++ hostKinds) :
    closed a = false := by
  rw [← Bool.not_eq_true]
  exact fun ha => hopen (hkind ▸ List.mem_append.2 (hclosed ha))

section SpelledBy

variable {free eased : Prop} {closed : Node → Bool} {r : Node → Node → Prop}
  (h : Alike free eased closed r)
  (hclosed : ∀ {a : Node}, closed a = true → a.kind ∈ blockKinds ∨ a.kind ∈ hostKinds)
  (htext : ∀ {a b c d : Node}, r a b → c ∈ a.spelledBy → d ∈ b.spelledBy → r c d → c.text = d.text)
include h htext

theorem shown_eq_of_spelledBy {a b : Node} {slot : Slot} (hab : r a b) (hslot : slot ∈ a.slots) :
    (slot.shown a).map text = (slot.shown b).map text := by
  have hmem : ∀ {n c : Node}, slot ∈ n.slots → c ∈ slot.shown n → c ∈ n.spelledBy := by
    intro n c hslot hc
    simp only [spelledBy, List.mem_append, List.mem_flatMap]
    exact .inl (.inl (.inl ⟨slot, hslot, hc⟩))
  have hslot' : slot ∈ b.slots := by
    rwa [slots, ← h.kind_eq hab]
  refine map_eq_of_forall₂ (fun c d hcd => ?_) (forall₂_mem (h.shown hab hslot))
  obtain ⟨hc, hd, hcd⟩ := hcd
  exact htext hab (hmem hslot hc) (hmem hslot' hd) hcd

theorem text_eq_of_spelledBy {a b : Node} (hab : r a b) (hkind : a.kind ∈ "string" :: namingKinds) :
    a.text = b.text := by
  have hmem : ∀ {n : Node}, n.kind ∈ "string" :: namingKinds → n ∈ n.spelledBy := by
    intro n hn
    simp only [spelledBy, List.contains_iff_mem.2 hn, if_true, List.mem_append]
    exact .inl (.inl (.inr (List.mem_singleton_self n)))
  exact htext hab (hmem hkind) (hmem (h.kind_eq hab ▸ hkind)) hab

include hclosed

theorem regexText_eq_of_spelledBy {a b : Node} (hab : r a b) (hkind : a.kind = "regex") :
    a.regexText = b.regexText := by
  have hmem : ∀ {n c : Node} {field : String}, n.kind = "regex" → field ∈ ["pattern", "flags"] →
      n.child? field = some c → c ∈ n.spelledBy := by
    intro n c field hn hfield hc
    simp only [List.mem_cons, List.not_mem_nil, or_false] at hfield
    simp only [spelledBy, hn, if_true, List.mem_append]
    rcases hfield with rfl | rfl <;> simp [hc]
  have ha := closed_eq_false_of_not_block hclosed hkind (by decide)
  have hplaces : placesOf a.kind = [] := by
    rw [hkind]
    decide
  have hfield : ∀ field ∈ ["pattern", "flags"],
      (a.child? field).map text = (b.child? field).map text := by
    intro field hfield
    have hplace : some field ∉ placesOf a.kind := by
      rw [hplaces]
      exact List.not_mem_nil
    rcases rel_cases (h.child?_of_field hab ha hplace) with ⟨hc, hd⟩ | ⟨c, d, hc, hd, hcd⟩
    · rw [hc, hd]
    · rw [hc, hd]
      exact congrArg some
        (htext hab (hmem hkind hfield hc) (hmem (h.kind_eq hab ▸ hkind) hfield hd) hcd)
  simp only [regexText, hfield "pattern" (by decide), hfield "flags" (by decide)]

theorem chunks_eq_of_spelledBy {a b : Node} (hab : r a b) (hkind : a.kind = "template_string") :
    a.chunks = b.chunks := by
  have hmem : ∀ {n c : Node}, n.kind = "template_string" → c ∈ n.parts →
      c.kind ≠ "template_substitution" → c ∈ n.spelledBy := by
    intro n c hn hc hstatic
    simp only [spelledBy, hn, if_true, List.mem_append]
    exact .inl (.inr (List.mem_filter.2 ⟨hc, by simpa using hstatic⟩))
  have ha := closed_eq_false_of_not_block hclosed hkind (by decide)
  have hparts := h.parts_of_kind hab ha (by rw [hkind]; decide)
  refine chunksOf_eq_of_forall₂ ((forall₂_mem hparts).imp fun c d hcd => ?_)
  obtain ⟨hc, hd, hcd⟩ := hcd
  refine ⟨h.kind_eq hcd, fun hstatic => ?_⟩
  exact htext hab (hmem hkind hc (h.kind_eq hcd ▸ hstatic))
    (hmem (h.kind_eq hab ▸ hkind) hd hstatic) hcd

/-- Nodes that are alike agree in all texts that are read if they keep those they are known by. -/
theorem Spelled.of_spelledBy
    (horder : ∀ {a b : Node} {slot : Slot}, r a b → slot ∈ a.slots →
      SameOrder (slot.compared a) (slot.compared b))
    (hopened : ∀ {a b c : Node}, r a b → c ∈ a.opened → closed c = false)
    (hreserved : eased → ∀ {a b : Node}, r a b → ∀ p ∈ a.reserved, p.1.takes p.2 = false)
    (hbinding : eased → ∀ {a b : Node}, r a b → a.isFunction = true →
      ∀ p ∈ b.parameters, p.isBinding = true) :
    Spelled free eased closed r where
  toAlike := h
  shown_eq := shown_eq_of_spelledBy h htext
  order := horder
  opened := hopened
  reserved := hreserved
  binding := hbinding
  endsInN_eq hab hkind := by
    rw [endsInN, endsInN, text_eq_of_spelledBy h htext hab (by rw [hkind]; decide)]
  directiveTexts_eq := h.directiveTexts_eq fun hcd hkind =>
    text_eq_of_spelledBy h htext hcd (by rw [hkind]; decide)
  block_or_host := hclosed
  spelled := text_eq_of_spelledBy h htext
  chunks_eq := chunks_eq_of_spelledBy h hclosed htext
  regexText_eq := regexText_eq_of_spelledBy h hclosed htext

end SpelledBy

/-! ## Names -/

def partName (budget : Nat) : Option Node → Except Fault (Option String)
  | some part => keyNameWithin budget part
  | none => .ok none

theorem partName_eq {r : Node → Node → Prop} {budget : Nat}
    (hread : Blind r (keyNameWithin budget)) :
    ∀ {c? d? : Option Node}, Option.Rel r c? d? → partName budget c? = partName budget d?
  | _, _, .some hcd => hread hcd
  | _, _, .none => rfl

section Nodes

variable {free eased : Prop} {closed : Node → Bool} {r : Node → Node → Prop}
  (h : Spelled free eased closed r)
include h

theorem content_eq {a b : Node} (hab : r a b) (hkind : a.kind = "string") :
    a.content = b.content := by
  rw [content, content, ← h.kind_eq hab, h.spelled hab (by rw [hkind]; decide)]

theorem keyNameWithin_blind (budget : Nat) : Blind (Eased eased r) (keyNameWithin budget) := by
  induction budget with
  | zero => exact fun _ _ _ => rfl
  | succ budget ih =>
    intro a b hab
    have hbare := h.bare hab
    revert hbare
    rw [keyNameWithin, keyNameWithin]
    generalize a.bare = a, b.bare = b
    intro hab
    have hinner : ∀ {c? d? : Option Node}, Option.Rel (Eased eased r) c? d? →
        partName budget c? = partName budget d? := partName_eq ih
    dsimp only
    rw [← h.kind_eq hab]
    split
    · rename_i hkind
      rw [h.spelled hab (List.mem_cons_of_mem _ (List.contains_iff_mem.1 hkind))]
    · split
      · rw [content_eq h hab ‹_›]
      · rfl
      · rw [h.chunks_eq hab ‹_›]
      · have ha := h.closed_eq_false ‹_› (by decide)
        exact hinner (rel_head?_of_forall₂ (h.parts hab ha))
      · exact hinner (h.child? hab (h.closed_eq_false ‹_› (by decide)) "property")
      · have ha := h.closed_eq_false ‹_› (by decide)
        rw [h.operator?_eq hab ha]
        refine congrArg₂ (· >>= ·) (hinner (h.child? hab ha "left")) (funext fun left? => ?_)
        cases left? with
        | none => rfl
        | some left => exact congrArg (· >>= _) (hinner (h.child? hab ha "right"))
      · rfl

theorem targetName_blind : Blind (Eased eased r) targetName := by
  intro a b hab
  have hbare := h.bare hab
  revert hbare
  rw [targetName, targetName]
  generalize a.bare = a, b.bare = b
  intro hab
  rw [← h.kind_eq hab]
  refine partName_eq (keyNameWithin_blind h keyBudget) ?_
  split
  · exact h.child? hab (h.closed_eq_false ‹_› (by decide)) "property"
  · exact h.child? hab (h.closed_eq_false ‹_› (by decide)) "index"
  · exact .some (.inl hab)

theorem localName_eq {a b : Node} (hab : r a b) (hfunction : a.isFunction = true)
    {c? d? : Option Node} (hcd : Option.Rel (Eased eased r) c? d?) :
    a.localName c? = b.localName d? := by
  have ha := h.closed_eq_false_of_mem (List.contains_iff_mem.1 hfunction) (by decide)
  have hown : a.ownName = b.ownName := by
    rw [ownName, ownName]
    rcases rel_cases (h.child? hab ha "name") with ⟨hc, hd⟩ | ⟨c, d, hc, hd, hcd⟩
    · rw [hc, hd]
    · rw [hc, hd]
      exact keyNameWithin_blind h keyBudget hcd
  unfold localName
  rw [hown]
  rcases hcd with hcd | -
  · simp only [targetName_blind h hcd]
  · rfl

theorem located_alike (options : TokenOptions) {a b : Node} (hab : r a b)
    (hfunction : a.isFunction = true) {c? d? : Option Node}
    (hcd : Option.Rel (Eased eased r) c? d?) :
    (a.located options c?).toOption = (b.located options d?).toOption := by
  rw [located, located, localName_eq h hab hfunction hcd]
  simp only [toOption_bind, tokens_alike h.toLegible options hab hfunction]

/-! ## Values of holders -/

omit h in
theorem holderFields_not_closed : ∀ entry ∈ holderFields, entry.1 ∉ closedKinds := by decide

omit h in
theorem value?_bind_eq (n : Node) :
    n.value?.bind (n.children[·]?) =
      if n.kind = "return_statement" then n.children.find? isSignificant
      else (holderFields.lookup n.kind).bind fun (value, _) => n.child? value := by
  unfold value?
  split
  · exact findIdx?_bind_getElem? isSignificant n.children
  · cases holderFields.lookup n.kind with
    | none => rfl
    | some fields => exact findIdx?_bind_getElem? _ n.children

theorem holderFields_bind_alike {a b : Node} (hab : r a b) (field : String × String → String) :
    Option.Rel (Eased eased r)
      ((holderFields.lookup a.kind).bind fun fields => a.child? (field fields))
      ((holderFields.lookup a.kind).bind fun fields => b.child? (field fields)) := by
  cases hfields : holderFields.lookup a.kind with
  | none => exact .none
  | some fields =>
    have hkind := holderFields_not_closed _ (mem_of_lookup_eq_some hfields)
    exact h.child? hab (h.closed_eq_false rfl hkind) (field fields)

theorem held?_alike {a b : Node} (hab : r a b) : Option.Rel r a.held? b.held? := by
  have hvalue : Option.Rel (Eased eased r) (a.value?.bind (a.children[·]?))
      (b.value?.bind (b.children[·]?)) := by
    rw [value?_bind_eq, value?_bind_eq, ← h.kind_eq hab]
    split
    · exact h.find?_isSignificant hab (h.closed_eq_false ‹_› (by decide))
    · exact holderFields_bind_alike h hab Prod.fst
  rw [held?, held?]
  rcases rel_cases hvalue with ⟨hc, hd⟩ | ⟨c, d, hc, hd, hcd⟩
  · rw [hc, hd]
    exact .none
  · rw [hc, hd, Option.map_some, Option.map_some, Option.filter_some, Option.filter_some,
      h.isFunction_eq (h.bare hcd)]
    split
    · exact .some (h.bare hcd)
    · exact .none

theorem target?_alike {a b : Node} (hab : r a b) :
    Option.Rel (Eased eased r) a.target? b.target? := by
  rw [target?, target?, ← h.kind_eq hab]
  exact holderFields_bind_alike h hab Prod.snd

omit h in
theorem findIdx?_append_cons {α : Type} (p : α → Bool) (front rest : List α) (a : α) :
    ((front ++ a :: rest).findIdx? p == some front.length) = (!front.any p && p a) := by
  induction front with
  | nil =>
    rw [List.nil_append, List.findIdx?_cons]
    cases p a with
    | true => rfl
    | false => cases rest.findIdx? p <;> simp
  | cons b front ih =>
    rw [List.cons_append, List.findIdx?_cons, List.any_cons]
    cases p b with
    | true => rfl
    | false =>
      rw [Bool.false_or, ← ih, List.length_cons]
      cases (front ++ a :: rest).findIdx? p <;> simp

/-- Whether a child is held does not depend on its place but on what stands before it. -/
theorem holdsAt_eq {a b c d : Node} {front front' rest rest' : List Node} (hab : r a b)
    (ha : a.children = front ++ c :: rest) (hb : b.children = front' ++ d :: rest')
    (hfront : Interleaved (Beneath eased r a) front front') (hcd : Beneath eased r a c d)
    (held : Bool) :
    a.holdsAt held front.length = b.holdsAt held front'.length := by
  have hfirst : (a.firstPart? == some front.length) = (b.firstPart? == some front'.length) := by
    rw [firstPart?, firstPart?, ha, hb, findIdx?_append_cons, findIdx?_append_cons,
      hfront.any (fun _ => isSignificant_of_isLoose)
        fun _ _ hxy => h.isSignificant_eq_of_eased hxy.toEased,
      h.isSignificant_eq_of_eased hcd.toEased]
  have hfield : ∀ field : String,
      (a.children.findIdx? (fun x => x.field == some field) == some front.length) =
        (b.children.findIdx? (fun x => x.field == some field) == some front'.length) := by
    intro field
    rw [ha, hb, findIdx?_append_cons, findIdx?_append_cons,
      hfront.any (fun _ hx => field_ne_of_isLoose hx field) fun _ _ hxy => by rw [hxy.field_eq],
      hcd.field_eq]
  rw [holdsAt, holdsAt, ← h.kind_eq hab, hfirst]
  split
  · rfl
  · rw [value?, value?, ← h.kind_eq hab]
    split
    · exact hfirst
    · cases holderFields.lookup a.kind with
      | none => rfl
      | some fields => exact hfield fields.1

omit h in
theorem holdsAt_of_block_or_host {n : Node} (hkind : n.kind ∈ blockKinds ++ hostKinds) (held : Bool)
    (index : Nat) : n.holdsAt held index = false := by
  have hplain : ∀ kind ∈ blockKinds ++ hostKinds, kind ≠ "parenthesized_expression" ∧
      kind ≠ "return_statement" ∧ holderFields.lookup kind = none := by
    decide
  obtain ⟨hparentheses, hreturn, hfields⟩ := hplain _ hkind
  rw [holdsAt, if_neg hparentheses, value?, if_neg hreturn, hfields]
  rfl

/-! ## Literals -/

theorem negatedNumber?_cases {a b : Node} (hab : r a b) :
    Option.Rel r a.negatedNumber? b.negatedNumber? ∨
      eased ∧ b.negatedNumber? = none ∧ ∃ c, a.negatedNumber? = some c := by
  rw [negatedNumber?, negatedNumber?, ← h.kind_eq hab]
  by_cases hkind : a.kind = "unary_expression"
  · have ha := h.closed_eq_false hkind (by decide)
    rw [← h.operator?_eq hab ha]
    split
    · rcases rel_cases (h.child? hab ha "argument") with ⟨hc, hd⟩ | ⟨c, d, hc, hd, hcd⟩
      · rw [hc, hd]
        exact .inl .none
      · rw [hc, hd, Option.filter_some, Option.filter_some]
        rcases hcd with hcd | ⟨heased, henclosed⟩
        · rw [h.kind_eq hcd]
          split
          · exact .inl (.some hcd)
          · exact .inl .none
        · have hd : (d.kind == "number") = false := by
            rw [henclosed.kind]
            rfl
          rw [hd, if_neg Bool.false_ne_true]
          split
          · exact .inr ⟨heased, rfl, c, rfl⟩
          · exact .inl .none
    · exact .inl .none
  · rw [if_neg fun hneg => hkind hneg.1, if_neg fun hneg => hkind hneg.1]
    exact .inl .none

theorem literal_eq_of_negatedNumber? {a b : Node} (hab : r a b)
    (hnegated : Option.Rel r a.negatedNumber? b.negatedNumber?) : a.literal = b.literal := by
  rw [literal, literal, ← h.kind_eq hab]
  split
  · rw [content_eq h hab ‹_›]
  · rw [h.spelled hab (by rw [‹a.kind = _›]; decide)]
  · rw [h.regexText_eq hab ‹_›]
  · rw [templateText, templateText, h.chunks_eq hab ‹_›]
  iterate 4 rfl
  · rcases rel_cases hnegated with ⟨hc, hd⟩ | ⟨c, d, hc, hd, hcd⟩
    · rw [hc, hd]
    · rw [hc, hd]
      dsimp only
      rw [h.spelled hcd (by rw [(child?_of_negatedNumber? hc).2]; decide)]

theorem literal_blind (heased : ¬eased) : Blind r literal := fun _ _ hab =>
  literal_eq_of_negatedNumber? h hab
    ((negatedNumber?_cases h hab).resolve_right fun hnegated => heased hnegated.1)

end Nodes

end Node

/-! ## Sites -/

namespace Site

def heldBelow (root s : Site) : Bool :=
  Node.isHeld (s.above.take (s.above.length - root.above.length - 1))

/-- Sites of two walks, where nodes are alike, and the parents as far as they count. -/
structure SitesAlike (r : Node → Node → Prop) (root root' s s' : Site) : Prop where
  node : r s.node s'.node
  parent : s.node.kind ∈ Node.blockKinds →
    s.parentNode?.map Node.kind = s'.parentNode?.map Node.kind
  depth : ∃ k k', s.above.length = root.above.length + k ∧
    s'.above.length = root'.above.length + k' ∧ (k = 0 ↔ k' = 0)
  held : root.heldBelow s = root'.heldBelow s'

structure OfferedAlike (r : Node → Node → Prop) (root root' s s' : Site) : Prop
    extends SitesAlike r root root' s s' where
  directive : s.isDirective = s'.isDirective

/-- A site, and one that is alike or has one in parentheses or braces that is. -/
def PartsAlike (r : Node → Node → Prop) (root root' x x' : Site) : Prop :=
  OfferedAlike r root root' x x' ∨ x'.node.kind ∈ Node.wrapperKinds ∧
    ∃ y', x'.parts = [y'] ∧ OfferedAlike r root root' x y'

theorem sitesAlike_root {r : Node → Node → Prop} {root root' : Site}
    (hnode : r root.node root'.node)
    (hparent : root.parentNode?.map Node.kind = root'.parentNode?.map Node.kind) :
    SitesAlike r root root' root root' where
  node := hnode
  parent _ := hparent
  depth := ⟨0, 0, rfl, rfl, Iff.rfl⟩
  held := by simp [heldBelow, Node.isHeld]

theorem heldBelow_child {root s : Site} {k : Nat} (hdepth : s.above.length = root.above.length + k)
    (index : Nat) (c : Node) :
    root.heldBelow (s.child index c) =
      if k = 0 then false else s.node.holdsAt (root.heldBelow s) index := by
  have htake : (s.child index c).above.length - root.above.length - 1 = k := by
    simp only [child, List.length_cons]
    omega
  rw [heldBelow, htake]
  cases k with
  | zero => rfl
  | succ k =>
    have hpred : s.above.length - root.above.length - 1 = k := by omega
    rw [if_neg (Nat.succ_ne_zero k), heldBelow, hpred]
    exact Node.isHeld_cons s.node index (s.above.take k)

section Alike

variable {free eased : Prop} {closed : Node → Bool} {r : Node → Node → Prop}
  (h : Node.Spelled free eased closed r) {root root' s s' : Site}
include h

theorem opensPrologue_eq (hs : SitesAlike r root root' s s') :
    s.opensPrologue = s'.opensPrologue := by
  have hparent := hs.parent
  unfold opensPrologue
  rw [← h.kind_eq hs.node]
  split
  · rfl
  · split
    · rename_i hkind
      replace hparent := hparent (by rw [hkind]; decide)
      revert hparent
      cases s.parentNode? <;> cases s'.parentNode? <;> intro hparent
      · rfl
      · cases hparent
      · cases hparent
      · simp only [Option.map_some, Option.some.injEq] at hparent
        simp only [Node.isFunction, hparent]
    · rfl

omit h in
/-- What is below an expression in parentheses is held if the expression without them is. -/
theorem heldBelow_of_parentheses {x : Site} {k i : Nat} {c : Node}
    (hdepth : x.above.length = root.above.length + (k + 1))
    (hkind : x.node.kind = "parenthesized_expression") (hi : x.node.firstPart? = some i) :
    root.heldBelow (x.child i c) = root.heldBelow x := by
  rw [heldBelow_child hdepth, if_neg (Nat.succ_ne_zero k), Node.holdsAt, if_pos hkind, hi]
  simp

omit h in
theorem exists_inside (hs : SitesAlike r root root' s s') {i i' : Nat} {c c' inner : Node}
    (hinner : c'.parts = [inner]) (hc : r c inner) (hblock : c.kind ∉ Node.blockKinds)
    (hdirective : ∀ j,
      (s.child i c).isDirective = ((s'.child i' c').child j inner).isDirective)
    (hheld : ∀ j, c'.firstPart? = some j →
      root.heldBelow (s.child i c) = root'.heldBelow ((s'.child i' c').child j inner)) :
    ∃ y', (s'.child i' c').parts = [y'] ∧ OfferedAlike r root root' (s.child i c) y' := by
  obtain ⟨k, k', hdepth, hdepth', -⟩ := hs.depth
  obtain ⟨j, hj, hparts⟩ := exists_parts_eq_singleton (s := s'.child i' c') hinner
  refine ⟨_, hparts, ⟨hc, fun h => absurd h hblock, ⟨k + 1, k' + 2, ?_, ?_, by simp⟩, hheld j hj⟩,
    hdirective j⟩
  · rw [child, List.length_cons, hdepth, Nat.add_assoc]
  · rw [child, List.length_cons, child, List.length_cons, hdepth', Nat.add_assoc, Nat.add_assoc]

theorem partsAlike_of_beneath (hs : SitesAlike r root root' s s') {i i' : Nat} {c c' : Node}
    (hc : Node.Beneath eased r s.node c c')
    (hdirective : (s.child i c).isDirective = (s'.child i' c').isDirective)
    (hheld : root.heldBelow (s.child i c) = root'.heldBelow (s'.child i' c')) :
    PartsAlike r root root' (s.child i c) (s'.child i' c') := by
  obtain ⟨k, k', hdepth, hdepth', -⟩ := hs.depth
  have hbelow : (s.child i c).above.length = root.above.length + (k + 1) := by
    rw [child, List.length_cons, hdepth, Nat.add_assoc]
  have hbelow' : (s'.child i' c').above.length = root'.above.length + (k' + 1) := by
    rw [child, List.length_cons, hdepth', Nat.add_assoc]
  rcases hc.eased with hcc' | ⟨-, -, henclosed⟩
  · refine .inl ⟨⟨hcc', fun _ => ?_, ⟨k + 1, k' + 1, hbelow, hbelow', by simp⟩, hheld⟩, hdirective⟩
    exact congrArg some (h.kind_eq hs.node)
  · -- What is in the parentheses is an expression, and so neither a directive nor a block.
    obtain ⟨inner, hinner, hcc'⟩ := henclosed.inside
    have hblock : c.kind ∉ Node.blockKinds := by
      have hdisjoint : ∀ kind ∈ Node.expressionKinds, kind ∉ Node.blockKinds := by decide
      exact hdisjoint _ (Node.kind_mem_of_isExpression henclosed.isExpression)
    have hwraps : c'.kind ∈ Node.wrapperKinds := by
      rw [henclosed.kind]
      decide
    refine .inr ⟨hwraps, exists_inside hs hinner hcc' hblock (fun j => ?_) fun j hj => ?_⟩
    · have hplain := Node.isStringStatement_of_isExpression henclosed.isExpression
      rw [isDirective_child, isDirective_child, ← h.isStringStatement_eq hcc', hplain]
      rfl
    · rw [hheld]
      exact (heldBelow_of_parentheses hbelow' henclosed.kind hj).symm

theorem partsAlike_of_beside (hs : SitesAlike r root root' s s') {x x' : Site}
    (hx : Beside (Node.Beneath eased r s.node) s s' x x') : PartsAlike r root root' x x' := by
  have hdirective := isDirective_eq_of_beside hx
    (fun hcd => h.isSignificant_eq_of_eased (Node.Beneath.toEased hcd))
    (fun hcd => h.isStringStatement_eq_of_eased (Node.Beneath.toEased hcd)) (opensPrologue_eq h hs)
  obtain ⟨hchildren, hchildren', hfront, hc⟩ := hx
  obtain ⟨k, k', hdepth, hdepth', hzero⟩ := hs.depth
  refine partsAlike_of_beneath h hs hc hdirective ?_
  rw [heldBelow_child hdepth, heldBelow_child hdepth', hs.held,
    Node.holdsAt_eq h hs.node hchildren hchildren' hfront hc]
  simp only [hzero]

omit h in
theorem isDirective_of_host {s : Site} (hhost : s.node.kind ∈ Node.hostKinds) (i : Nat) (c : Node) :
    (s.child i c).isDirective = false := by
  have hplain : ∀ kind ∈ Node.hostKinds, kind ≠ "program" ∧ kind ≠ "statement_block" := by decide
  obtain ⟨hprogram, hblock⟩ := hplain _ hhost
  rw [isDirective_child, opensPrologue, if_neg hprogram, if_neg hblock, Bool.false_and,
    Bool.and_false]

omit h in
theorem heldBelow_of_block_or_host {k : Nat} (hdepth : s.above.length = root.above.length + k)
    (hkind : s.node.kind ∈ Node.blockKinds ++ Node.hostKinds) (i : Nat) (c : Node) :
    root.heldBelow (s.child i c) = false := by
  rw [heldBelow_child hdepth, Node.holdsAt_of_block_or_host hkind, ite_self]

theorem partsAlike_of_housed (hs : SitesAlike r root root' s s')
    (hhost : s.node.kind ∈ Node.hostKinds) {i i' : Nat} {c c' : Node}
    (hc : Node.Housed eased r s.node c c') :
    PartsAlike r root root' (s.child i c) (s'.child i' c') := by
  have hhost' : s'.node.kind ∈ Node.hostKinds := h.kind_eq hs.node ▸ hhost
  obtain ⟨k, k', hdepth, hdepth', -⟩ := hs.depth
  have hheld := heldBelow_of_block_or_host hdepth (List.mem_append_right _ hhost) i c
  have hheld' := heldBelow_of_block_or_host hdepth' (List.mem_append_right _ hhost') i' c'
  have hdirective := isDirective_of_host hhost i c
  rcases hc.braced with hc | ⟨-, hembraced⟩
  · refine partsAlike_of_beneath h hs hc ?_ (hheld.trans hheld'.symm)
    rw [hdirective, isDirective_of_host hhost']
  · -- The block is the body of no function, so what is in the braces is no directive either.
    obtain ⟨inner, hinner, hcc'⟩ := hembraced.inside
    have hwraps : c'.kind ∈ Node.wrapperKinds := by
      rw [hembraced.kind]
      decide
    refine .inr ⟨hwraps,
      exists_inside hs hinner hcc' hembraced.kind_left (fun j => ?_) fun j _ => ?_⟩
    · have hfunction : s'.node.isFunction = false := by
        have hdisjoint : ∀ kind ∈ Node.hostKinds, Node.functionKinds.contains kind = false := by
          decide
        exact hdisjoint _ hhost'
      rw [hdirective, isDirective_child, opensPrologue_child,
        if_neg (by rw [hembraced.kind]; decide), if_pos hembraced.kind, hfunction, Bool.false_and, Bool.and_false]
    · have hbelow' : (s'.child i' c').above.length = root'.above.length + (k' + 1) := by
        rw [child, List.length_cons, hdepth', Nat.add_assoc]
      have hblock : c'.kind ∈ Node.blockKinds ++ Node.hostKinds := by
        rw [hembraced.kind]
        decide
      rw [hheld, heldBelow_of_block_or_host hbelow' hblock]

theorem offeredAlike_of_block (hs : SitesAlike r root root' s s')
    (hblock : s.node.kind ∈ Node.blockKinds) {i i' : Nat} {c c' : Node} (hc : r c c')
    (hplain : c.isStringStatement = false) :
    OfferedAlike r root root' (s.child i c) (s'.child i' c') := by
  obtain ⟨k, k', hdepth, hdepth', -⟩ := hs.depth
  have hblock' : s'.node.kind ∈ Node.blockKinds := h.kind_eq hs.node ▸ hblock
  refine ⟨⟨hc, fun _ => ?_, ⟨k + 1, k' + 1, ?_, ?_, by simp⟩, ?_⟩, ?_⟩
  · exact congrArg some (h.kind_eq hs.node)
  · rw [child, List.length_cons, hdepth, Nat.add_assoc]
  · rw [child, List.length_cons, hdepth', Nat.add_assoc]
  · rw [heldBelow_of_block_or_host hdepth (List.mem_append_left _ hblock),
      heldBelow_of_block_or_host hdepth' (List.mem_append_left _ hblock')]
  · rw [isDirective_child, isDirective_child, ← h.isStringStatement_eq hc, hplain]
    rfl

theorem parts_alike (hs : SitesAlike r root root' s s') :
    Arranged free (PartsAlike r root root') s.parts s'.parts := by
  cases hclosed : closed s.node with
  | false =>
    refine .of_forall₂ ((forall₂_parts ?_ (h.children hs.node hclosed)).imp ?_)
    · exact fun hcd => h.isSignificant_eq_of_eased (Node.Beneath.toEased hcd)
    · exact fun _ _ => partsAlike_of_beside h hs
  | true =>
    rcases h.block_or_host hclosed with hblock | hhost
    case inr =>
      refine .of_forall₂ ((forall₂_parts ?_ (h.housed hs.node hhost)).imp ?_)
      · exact fun hcd => h.isSignificant_eq_of_housed hcd
      · rintro _ _ ⟨-, -, -, hc⟩
        exact partsAlike_of_housed h hs hhost hc
    obtain ⟨hplain, nodes, hnodes, hmoved⟩ := h.statements hs.node hclosed hblock
    -- The sites are put in the order of the nodes that they stand at.
    obtain ⟨sites, hsites, rfl⟩ :
        ∃ sites, Rearranged free sites s'.parts ∧ nodes = sites.map node := by
      rcases hmoved with rfl | ⟨hfree, hperm⟩
      · exact ⟨s'.parts, .refl _, s'.map_node_parts.symm⟩
      · have hself : List.Forall₂ (fun x n => x.node = n) s'.parts s'.node.parts := by
          rw [← map_node_parts, List.forall₂_map_right_iff, List.forall₂_same]
          exact fun _ _ => rfl
        obtain ⟨sites, hsites, hmatch⟩ := exists_perm_forall₂ hself hperm.symm
        refine ⟨sites, .inr ⟨hfree, hsites⟩, ?_⟩
        rw [← List.forall₂_eq_eq_eq, List.forall₂_map_right_iff]
        exact hmatch.flip.imp fun _ _ heq => heq.symm
    refine ⟨sites, ?_, hsites⟩
    rw [← map_node_parts, List.forall₂_map_left_iff, List.forall₂_map_right_iff] at hnodes
    refine (forall₂_mem hnodes).imp ?_
    rintro x x' ⟨hx, hx', hxx'⟩
    obtain ⟨i, c, hc, rfl⟩ := exists_of_mem_parts hx
    obtain ⟨i', c', hc', rfl⟩ := exists_of_mem_parts (hsites.perm.mem_iff.1 hx')
    exact .inl (offeredAlike_of_block h hs hblock hxx' (hplain c hc))

/-! ## Walks -/

theorem locate_alike (options : TokenOptions) {x x' : Site} (hx : OfferedAlike r root root' x x') :
    (x.locate options (x.above.length - root.above.length)).toOption =
      (x'.locate options (x'.above.length - root'.above.length)).toOption := by
  have hheld : Node.isHeld (x.above.take (x.above.length - root.above.length - 1)) =
      Node.isHeld (x'.above.take (x'.above.length - root'.above.length - 1)) := hx.held
  rw [locate, locate, hheld]
  have hnodeHeld := Node.held?_alike h hx.node
  cases hfound : x.node.held? with
  | some f =>
    rw [hfound] at hnodeHeld
    rcases rel_cases hnodeHeld with ⟨hnone, -⟩ | ⟨_, f', hsome, hsome', hff'⟩
    · cases hnone
    · cases hsome
      have hfunction : f.isFunction = true := (Option.filter_eq_some_iff.1 hfound).2
      rw [hsome']
      simp only [toOption_map, Node.located_alike h options hff' hfunction
        (Node.target?_alike h hx.node)]
  | none =>
    rw [hfound] at hnodeHeld
    rcases rel_cases hnodeHeld with ⟨-, hnone⟩ | ⟨_, _, hsome, -⟩
    · rw [hnone, ← h.isFunction_eq hx.node]
      dsimp only
      split
      · rename_i hown
        rw [Bool.and_eq_true] at hown
        simp only [toOption_map, Node.located_alike h options hx.node hown.1 .none]
      · rfl
    · cases hsome

omit h in
theorem locate_of_wrapper {x : Site} (hkind : x.node.kind ∈ Node.wrapperKinds)
    (options : TokenOptions) (depth : Nat) : x.locate options depth = .ok .pass := by
  have hplain : ∀ kind ∈ Node.wrapperKinds, kind ≠ "return_statement" ∧
      Node.holderFields.lookup kind = none ∧ Node.functionKinds.contains kind = false := by
    decide
  obtain ⟨hreturn, hfields, hfunction⟩ := hplain _ hkind
  have hheld : x.node.held? = none := by
    rw [Node.held?, Node.value?, if_neg hreturn, hfields]
    rfl
  rw [locate, hheld, Node.isFunction, hfunction]
  rfl

omit h in
theorem past_of_partsAlike {x x' : Site} (hx : PartsAlike r root root' x x') :
    Past literal (OfferedAlike r root root') x x' :=
  hx.imp_right fun ⟨hkind, y', hparts, hy'⟩ =>
    ⟨y', hparts, by rw [literal_of_wrapper hkind]; rfl, hy'⟩

theorem literal_alike (heased : ¬eased) {x x' : Site} (hx : OfferedAlike r root root' x x') :
    x.literal = x'.literal := by
  rw [literal, literal, hx.directive, Node.literal_blind h heased hx.node]

variable (hnode : r root.node root'.node)
  (hparent : root.parentNode?.map Node.kind = root'.parentNode?.map Node.kind)
include hnode hparent

/-- Below roots that are alike the functions form forests of one shape. -/
theorem functions_alike (options : TokenOptions) :
    Option.Rel (Arranged free (Entry.Like free)) (root.functions options).toOption
      (root'.functions options).toOption := by
  have hparts : ∀ {s s' : Site}, SitesAlike r root root' s s' → Arranged free
      (Past (fun x => x.locate options (x.above.length - root'.above.length))
        (OfferedAlike r root root')) s.parts s'.parts :=
    fun hs => (parts_alike h hs).imp fun _ _ => Or.imp_right fun ⟨hkind, y', hparts, hy'⟩ =>
      ⟨y', hparts, congrArg Except.toOption (locate_of_wrapper hkind ..), hy'⟩
  exact walk_alike (fun hs => hparts hs.toSitesAlike) (locate_alike h options)
    (hparts (sitesAlike_root hnode hparent))

/-- Below roots that are alike the same literals are found. -/
theorem literals_alike (heased : ¬eased) : root.literals.toOption = root'.literals.toOption := by
  have hparts : ∀ {s s' : Site}, SitesAlike r root root' s s' →
      Arranged free (Past literal (OfferedAlike r root root')) s.parts s'.parts :=
    fun hs => (parts_alike h hs).imp fun _ _ => past_of_partsAlike
  have hfound : Option.Rel (Arranged free (Entry.Like free))
      (root.walk fun _ s => s.literal).toOption (root'.walk fun _ s => s.literal).toOption :=
    walk_alike (fun hs => hparts hs.toSitesAlike)
      (fun hx => congrArg Except.toOption (literal_alike h heased hx))
      (hparts (sitesAlike_root hnode hparent))
  rw [literals, literals, toOption_map, toOption_map]
  rcases rel_cases hfound with ⟨hnone, hnone'⟩ | ⟨found, found', hsome, hsome', hlike⟩
  · rw [hnone, hnone']
  · rw [hsome, hsome', Option.map_some, Option.map_some]
    exact congrArg some (Literal.ascending_eq_of_perm (Entry.rearranged_toListAll hlike).perm
      (isKept_of_mem_walk (toOption_eq_some.1 hsome)))

/-- Below roots that are alike one signature is extracted, or none, if the forests of functions are
flattened alike. -/
theorem extract_alike (heased : ¬eased) (options : TokenOptions)
    (hflatten : ∀ forest forest', root.functions options = .ok forest →
      Arranged free (Entry.Like free) forest forest' →
        Located.flatten forest = Located.flatten forest') :
    (Signature.extract options root).toOption = (Signature.extract options root').toOption := by
  rw [Signature.extract, Signature.extract, toOption_bind, toOption_bind]
  rcases rel_cases (functions_alike h hnode hparent options) with
    ⟨hnone, hnone'⟩ | ⟨forest, forest', hforest, hforest', hlike⟩
  · rw [hnone, hnone']
    rfl
  · have hsame := hflatten forest forest' (toOption_eq_some.1 hforest) hlike
    rw [hforest, hforest', Option.bind_some, Option.bind_some, toOption_bind, toOption_bind,
      literals_alike h hnode hparent heased, hsame]

end Alike

end Site

end Fingerprint
