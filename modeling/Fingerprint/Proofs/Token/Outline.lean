import Mathlib.Tactic.Common
import Fingerprint.Proofs.Token.Abstraction
import Fingerprint.Proofs.Tree.Matching
/-!
# Outlines of functions

What stands in a function or in a class is its own affair: no token of a function shows the
parameters and bodies of the functions in it, or the bodies of the classes.  So functions that have
the same outline have the same tokens.
-/

namespace Fingerprint

namespace Node

/-! ## What functions and classes keep to themselves -/

def hiddenFields (kind : String) : List String :=
  if functionKinds.contains kind then ["parameters", "parameter", "body"]
  else if classKinds.contains kind then ["body"]
  else []

/-- Whether nodes of a kind keep a child to themselves.  What a class extends is for all to see. -/
def hides (kind : String) (c : Node) : Bool :=
  c.kind != "class_heritage" && c.field.any (hiddenFields kind).contains

def isKeeping (n : Node) : Bool := hiddenFields n.kind != []

theorem hides_eq_false {n : Node} (h : n.isKeeping = false) (c : Node) :
    hides n.kind c = false := by
  rw [isKeeping, bne_eq_false_iff_eq] at h
  rw [hides, h]
  cases c.field <;> simp

theorem hides_eq_false_of_field {kind field : String} {c : Node} (hc : c.field = some field)
    (hfield : field ∉ hiddenFields kind) : hides kind c = false := by
  simp [hides, hc, hfield]

theorem hides_heritage (kind : String) {c : Node} (hc : c.kind = "class_heritage") :
    hides kind c = false := by
  simp [hides, hc]

theorem kind_mem_of_isKeeping {n : Node} (h : n.isKeeping = true) : n.kind ∈ keepingKinds := by
  rw [isKeeping, hiddenFields] at h
  refine List.mem_append_left _ (List.mem_append.2 ?_)
  split at h
  · exact .inl (List.contains_iff_mem.1 ‹_›)
  · split at h
    · exact .inr (List.contains_iff_mem.1 ‹_›)
    · cases h

/-- Whether no function and no class stands where a node looks for a list, as the grammar has it. -/
def isFramed (n : Node) : Bool := n.opened.all (!·.isKeeping)

/-! ## Functions with the same outline -/

/-- Nodes of the same kind in the same place that show the same: the texts that tokens show and
those of literals agree, and what a token compares starts in the same order. -/
structure ShowsSame (a b : Node) : Prop where
  kind : a.kind = b.kind
  named : a.named = b.named
  field : a.field = b.field
  literal : ["string", "number"].contains a.kind = true → a.text = b.text
  shown : ∀ slot ∈ a.slots, (slot.shown a).map text = (slot.shown b).map text
  order : ∀ slot ∈ a.slots, SameOrder (slot.compared a) (slot.compared b)

namespace ShowsSame

variable {a b : Node} (h : ShowsSame a b)
include h

theorem place_eq : a.kind = b.kind ∧ a.named = b.named ∧ a.field = b.field :=
  ⟨h.kind, h.named, h.field⟩

theorem text_eq_of_string (hkind : a.kind = "string") : a.text = b.text :=
  h.literal (by rw [hkind]; decide)

end ShowsSame

instance (a b : Node) : Decidable (ShowsSame a b) :=
  decidable_of_iff
    (a.kind = b.kind ∧ a.named = b.named ∧ a.field = b.field ∧
      (["string", "number"].contains a.kind = true → a.text = b.text) ∧
      (∀ slot ∈ a.slots, (slot.shown a).map text = (slot.shown b).map text) ∧
      ∀ slot ∈ a.slots, SameOrder (slot.compared a) (slot.compared b))
    ⟨fun ⟨hkind, hnamed, hfield, hliteral, hshown, horder⟩ =>
      ⟨hkind, hnamed, hfield, hliteral, hshown, horder⟩,
      fun h => ⟨h.kind, h.named, h.field, h.literal, h.shown, h.order⟩⟩

/-- A choice of nodes that keep children to themselves, but neither their names nor what they
extend. -/
structure Hiding (closed : Node → Bool) (hidden : String → Node → Bool) : Prop where
  kind_mem : ∀ {n : Node}, closed n = true → n.kind ∈ keepingKinds
  eq_false : ∀ {n : Node}, closed n = false → ∀ c, hidden n.kind c = false
  name : ∀ {kind : String} {c : Node}, kind ∈ keepingKinds → c.field = some "name" →
    hidden kind c = false
  heritage : ∀ {kind : String} {c : Node}, c.kind = "class_heritage" → hidden kind c = false

section Hiding

variable {closed : Node → Bool} {hidden : String → Node → Bool} (h : Hiding closed hidden)
include h

/-- What shows the same can be read if nothing is kept where a node looks for a list. -/
theorem Hiding.readable : Readable False False closed
    (Matches hidden fun a b => ShowsSame a b ∧ a.opened.all (!closed ·) = true) where
  toAkin := akin_matches (·.1.place_eq) h.kind_mem h.eq_false
  opened hab hc := by
    simpa using List.all_eq_true.1 (matches_iff.1 hab).1.2 _ hc
  reserved := False.elim
  kept {a b} hab _ hkeeps :=
    ⟨Matches.child? (·.1.place_eq) hab fun _ hc => h.name hkeeps hc,
      Matches.parts_of_kind (·.1.place_eq) hab fun _ hc => h.heritage hc⟩
  shown_eq hab hslot := (matches_iff.1 hab).1.1.shown _ hslot
  order hab hslot := (matches_iff.1 hab).1.1.order _ hslot
  endsInN_eq hab hkind := by
    rw [endsInN, endsInN, (matches_iff.1 hab).1.1.literal (by rw [hkind]; decide)]

end Hiding

/-- Two nodes that differ in nothing but what the functions and classes at and below them hide. -/
abbrev SameOutside (a b : Node) : Prop := Matches hides ShowsSame a b

/-- Two functions that differ in nothing but what the functions and classes below them hide. -/
structure SameOutline (f f' : Node) : Prop where
  kind : f.kind = f'.kind
  children : List.Forall₂ SameOutside f.children f'.children

instance (f f' : Node) : Decidable (SameOutline f f') :=
  decidable_of_iff (f.kind = f'.kind ∧ List.Forall₂ SameOutside f.children f'.children)
    ⟨fun ⟨hkind, hchildren⟩ => ⟨hkind, hchildren⟩, fun h => ⟨h.kind, h.children⟩⟩

def Outlined (a b : Node) : Prop :=
  Matches hides (fun a b => ShowsSame a b ∧ a.isFramed = true) a b

theorem hiding_hides : Hiding isKeeping hides where
  kind_mem := kind_mem_of_isKeeping
  eq_false := hides_eq_false
  name hkind hc := by
    have hname : ∀ kind ∈ keepingKinds, "name" ∉ hiddenFields kind := by decide
    exact hides_eq_false_of_field hc (hname _ hkind)
  heritage hc := hides_heritage _ hc

theorem readable_outlined : Readable False False isKeeping Outlined := hiding_hides.readable

section Functions

variable {f f' : Node} (h : SameOutline f f') (hframed : ∀ n ∈ f.nodes, n.isFramed = true)
include h hframed

theorem SameOutline.outlined : List.Forall₂ Outlined f.children f'.children := by
  refine (forall₂_mem h.children).imp ?_
  rintro c d ⟨hc, -, hcd⟩
  exact hcd.and fun n hn => hframed n (mem_nodes_trans hn f (mem_nodes_of_mem_children hc))

theorem SameOutline.child? (field : String) :
    Option.Rel Outlined (f.child? field) (f'.child? field) :=
  (Interleaved.of_forall₂ (h.outlined hframed)).find? (fun _ hc => field_ne_of_isLoose hc field)
    fun _ _ hcd => by rw [(matches_iff.1 hcd).1.1.field]

theorem functionTokens_sameOutline (hfunction : f.isFunction = true) (options : TokenOptions) :
    Option.Rel (Rearranged False) (f.functionTokens options).toOption
      (f'.functionTokens options).toOption := by
  have hbody : Option.Rel (Eased False Outlined) (f.child? "body") (f'.child? "body") :=
    rel_imp (fun _ _ => .inl) (h.child? hframed "body")
  have hparameters : List.Forall₂ Outlined f.parameters f'.parameters := by
    refine parameters_of_lists readable_outlined.toAkin (h.child? hframed _) (h.child? hframed _)
      fun c hc => ⟨?_, False.elim⟩
    simpa using List.all_eq_true.1 (hframed f f.mem_nodes_self) c
      (mem_opened_of_parameters hfunction hc)
  refine functionTokens_of_children readable_outlined options hfunction
    (by rwa [isFunction, ← h.kind]) (hparameters.imp fun _ _ hcd => ⟨hcd, False.elim⟩) hbody ?_
  exact directiveTexts_eq_of_body readable_outlined.toAkin
    (fun hcd => (matches_iff.1 hcd).1.1.text_eq_of_string) hbody

end Functions

/-- Nested bodies do not leak: functions that differ in nothing but the parameters and bodies of the
functions and the bodies of the classes in them have the same tokens. -/
theorem tokens_sameOutline {f f' : Node} (h : SameOutline f f') (hfunction : f.isFunction = true)
    (hframed : ∀ n ∈ f.nodes, n.isFramed = true) (options : TokenOptions) (found : List String) :
    f.tokens options = .ok found ↔ f'.tokens options = .ok found := by
  have htokens := tokens_eq_of_rearranged (functionTokens_sameOutline h hframed hfunction options)
  rw [← toOption_eq_some, ← toOption_eq_some, htokens]

/-- The function returns a call with a function of no parameters and a class with a method. -/
def returningMethod : List Row :=
  returning 28
    [⟨"call_expression", true, none, 22, 50, 2⟩,
      ⟨"identifier", true, some "function", 22, 23, 0⟩,
      ⟨"arguments", true, some "arguments", 23, 50, 5⟩,
      ⟨"(", false, none, 23, 24, 0⟩,
      ⟨"arrow_function", true, none, 24, 31, 3⟩,
      ⟨"formal_parameters", true, some "parameters", 24, 26, 2⟩,
      ⟨"(", false, none, 24, 25, 0⟩,
      ⟨")", false, none, 25, 26, 0⟩,
      ⟨"=>", false, none, 27, 29, 0⟩,
      ⟨"number", true, some "body", 30, 31, 0⟩,
      ⟨",", false, none, 31, 32, 0⟩,
      ⟨"class", true, none, 33, 49, 2⟩,
      ⟨"class", false, none, 33, 38, 0⟩,
      ⟨"class_body", true, some "body", 39, 49, 3⟩,
      ⟨"\x7b", false, none, 39, 40, 0⟩,
      ⟨"method_definition", true, none, 41, 47, 3⟩,
      ⟨"property_identifier", true, some "name", 41, 42, 0⟩,
      ⟨"formal_parameters", true, some "parameters", 42, 44, 2⟩,
      ⟨"(", false, none, 42, 43, 0⟩,
      ⟨")", false, none, 43, 44, 0⟩,
      ⟨"statement_block", true, some "body", 45, 47, 2⟩,
      ⟨"\x7b", false, none, 45, 46, 0⟩,
      ⟨"\x7d", false, none, 46, 47, 0⟩,
      ⟨"\x7d", false, none, 48, 49, 0⟩,
      ⟨")", false, none, 49, 50, 0⟩]

def returningEmptyClass : List Row :=
  returning 19
    [⟨"call_expression", true, none, 22, 41, 2⟩,
      ⟨"identifier", true, some "function", 22, 23, 0⟩,
      ⟨"arguments", true, some "arguments", 23, 41, 5⟩,
      ⟨"(", false, none, 23, 24, 0⟩,
      ⟨"arrow_function", true, none, 24, 30, 3⟩,
      ⟨"identifier", true, some "parameter", 24, 25, 0⟩,
      ⟨"=>", false, none, 26, 28, 0⟩,
      ⟨"identifier", true, some "body", 29, 30, 0⟩,
      ⟨",", false, none, 30, 31, 0⟩,
      ⟨"class", true, none, 32, 40, 2⟩,
      ⟨"class", false, none, 32, 37, 0⟩,
      ⟨"class_body", true, some "body", 38, 40, 2⟩,
      ⟨"\x7b", false, none, 38, 39, 0⟩,
      ⟨"\x7d", false, none, 39, 40, 0⟩,
      ⟨")", false, none, 40, 41, 0⟩]

theorem tokens_sameOutline_arrowAndClass :
    ∃ t t',
      ofRows? "function f() \x7b return g(() => 1, class \x7b m() \x7b\x7d \x7d); \x7d"
        returningMethod = some t ∧
      ofRows? "function f() \x7b return g(x => x, class \x7b\x7d); \x7d"
        returningEmptyClass = some t' ∧
      ∃ p ∈ t.children.zip t'.children, SameOutline p.1 p.2 ∧ p.1.isFunction = true ∧
        (∀ n ∈ p.1.nodes, n.isFramed = true) ∧
        p.1.tokens {} = .ok ["STATEMENT:Return[EXPRESSION:Call[EXPRESSION:Identifier[g]," ++
          "EXPRESSION:ArrowFunction,EXPRESSION:Class]]"] ∧
        p.2.tokens {} = .ok ["STATEMENT:Return[EXPRESSION:Call[EXPRESSION:Identifier[g]," ++
          "EXPRESSION:ArrowFunction,EXPRESSION:Class]]"] := by
  obtain ⟨t, t', ht, ht', p, hp, houtline, hfunction, hframed, htokens⟩ :
      ∃ t t',
        ofRows? "function f() \x7b return g(() => 1, class \x7b m() \x7b\x7d \x7d); \x7d"
          returningMethod = some t ∧
        ofRows? "function f() \x7b return g(x => x, class \x7b\x7d); \x7d"
          returningEmptyClass = some t' ∧
        ∃ p ∈ t.children.zip t'.children, SameOutline p.1 p.2 ∧ p.1.isFunction = true ∧
          (∀ n ∈ p.1.nodes, n.isFramed = true) ∧
          p.1.tokens {} = .ok ["STATEMENT:Return[EXPRESSION:Call[EXPRESSION:Identifier[g]," ++
            "EXPRESSION:ArrowFunction,EXPRESSION:Class]]"] :=
    exists_trees (by decide +kernel)
  exact ⟨t, t', ht, ht', p, hp, houtline, hfunction, hframed, htokens,
    (tokens_sameOutline houtline hfunction hframed {} _).1 htokens⟩

end Node

end Fingerprint
