import Mathlib.Data.List.Perm.Basic
import Mathlib.Tactic.Common
import Fingerprint.Proofs.Arranged
import Fingerprint.Proofs.Tree.Nodes
import Fingerprint.Signature.Basic
/-!
# Every function is located once

A function can be met twice on a walk: at the node that holds it and at itself.  What is located
below a node, together with the function that was located for the node by its holder, is an
arrangement of the functions in the tree.  The held function is the only thing that the two sides
of a node have to agree on, so the induction carries it along.  A walk has an answer for each located
function in turn, and fails at the first one that it has none for.
-/

namespace Fingerprint

namespace Node

/-- The named functions strictly below a node, in pre-order. -/
def functionsBelow (n : Node) : List Node := n.descendants.filter fun c => c.named && c.isFunction

/-- What a parser promises of every node: comments and tokens have nothing below them, and the value
of a holder is more than a token. -/
def isTidy (n : Node) : Bool :=
  (n.isSignificant || n.children.isEmpty) && (n.value?.bind (n.children[·]?)).all named

theorem children_eq_nil_of_isTidy {n : Node} (h : n.isTidy = true) (hn : n.isSignificant = false) :
    n.children = [] := by
  rw [isTidy, Bool.and_eq_true, hn, Bool.false_or, List.isEmpty_iff] at h
  exact h.1

theorem named_of_isTidy {n c : Node} {index : Nat} (h : n.isTidy = true)
    (hvalue : n.value? = some index) (hc : n.children[index]? = some c) : c.named = true := by
  rw [isTidy, Bool.and_eq_true, hvalue, Option.bind_some, hc] at h
  exact h.2

/-- The function that a node is, in or out of parentheses. -/
def core? (n : Node) : Option Node := (some n.bare).filter isFunction

/-! ## Kinds -/

theorem kind_ne_parentheses_of_isFunction {n : Node} (h : n.isFunction = true) :
    n.kind ≠ "parenthesized_expression" := by
  intro hkind
  rw [isFunction, hkind] at h
  revert h
  decide

theorem value?_eq_none_of_isFunction {n : Node} (h : n.isFunction = true) : n.value? = none := by
  simp only [isFunction, functionKinds, List.contains_eq_mem, List.mem_cons, List.not_mem_nil,
    or_false, decide_eq_true_eq] at h
  rcases h with h | h | h | h | h | h | h <;> simp [value?, h, holderFields, List.lookup_cons]

theorem value?_eq_none_of_parentheses {n : Node} (h : n.kind = "parenthesized_expression") :
    n.value? = none := by
  simp [value?, h, holderFields, List.lookup_cons]

theorem isFunction_eq_false_of_isComment {n : Node} (h : n.isComment = true) :
    n.isFunction = false := by
  simp only [isComment, Bool.or_eq_true, beq_iff_eq] at h
  rcases h with h | h <;> simp [isFunction, functionKinds, h]

/-! ## Parentheses -/

theorem findIdx?_bind_getElem? {α : Type} (p : α → Bool) (items : List α) :
    (items.findIdx? p).bind (items[·]?) = items.find? p := by
  induction items with
  | nil => rfl
  | cons a rest ih =>
    rw [List.findIdx?_cons, List.find?_cons]
    cases hp : p a
    · simp only [Bool.false_eq_true, if_false, ← ih, Option.bind_map]
      rfl
    · simp

theorem core?_of_isFunction {n : Node} (h : n.isFunction = true) : n.core? = some n := by
  rw [core?, bare_of_ne (kind_ne_parentheses_of_isFunction h)]
  simp [h]

theorem core?_of_ne {n : Node} (hkind : n.kind ≠ "parenthesized_expression")
    (h : n.isFunction = false) : n.core? = none := by
  rw [core?, bare_of_ne hkind]
  simp [h]

theorem core?_of_parentheses {n : Node} (h : n.kind = "parenthesized_expression") :
    n.core? = (n.firstPart?.bind (n.children[·]?)).bind core? := by
  obtain ⟨label, children⟩ := n
  have hfunction : isFunction ⟨label, children⟩ = false := by
    rw [isFunction, h]
    decide
  have hbare : bare ⟨label, children⟩ = bareFirst ⟨label, children⟩ children := by
    rw [bare]
    exact if_pos h
  rw [firstPart?, findIdx?_bind_getElem?, core?, hbare, bareFirst_eq]
  cases children.find? isSignificant <;> simp [core?, hfunction]

theorem held?_eq (n : Node) : n.held? = (n.value?.bind (n.children[·]?)).bind core? := by
  rw [held?]
  cases n.value?.bind (n.children[·]?) <;> rfl

/-! ## Held functions among the children of a node -/

def markedFunctions (marked : Nat → Bool) (index : Nat) : List Node → List Node
  | [] => []
  | c :: rest =>
    (if marked index then c.core?.toList else []) ++ markedFunctions marked (index + 1) rest

theorem markedFunctions_false (index : Nat) (children : List Node) :
    markedFunctions (fun _ => false) index children = [] := by
  induction children generalizing index with
  | nil => rfl
  | cons c rest ih => simpa [markedFunctions] using ih (index + 1)

theorem markedFunctions_eq_nil {marked : Nat → Bool} {index : Nat} (children : List Node)
    (h : ∀ i, index ≤ i → marked i = false) : markedFunctions marked index children = [] := by
  induction children generalizing index with
  | nil => rfl
  | cons c rest ih =>
    rw [markedFunctions, h index (Nat.le_refl _), ih fun i hi => h i (by omega)]
    rfl

theorem markedFunctions_single (place? : Option Nat) (children : List Node) :
    markedFunctions (fun i => place? == some i) 0 children =
      ((place?.bind (children[·]?)).bind core?).toList := by
  have hshift : ∀ (k index : Nat) (children : List Node),
      markedFunctions (fun i => some (index + k) == some i) index children =
        ((children[k]?).bind core?).toList := by
    intro k
    induction k with
    | zero =>
      intro index children
      cases children with
      | nil => rfl
      | cons c rest =>
        rw [markedFunctions, markedFunctions_eq_nil rest]
        · simp
        · intro i hi
          simp only [beq_eq_false_iff_ne, ne_eq, Option.some.injEq]
          omega
    | succ k ih =>
      intro index children
      cases children with
      | nil => rfl
      | cons c rest =>
        have hne : (some (index + (k + 1)) == some index) = false := by
          simp
        rw [markedFunctions, hne, show index + (k + 1) = index + 1 + k by omega, ih]
        simp
  cases place? with
  | none => exact markedFunctions_false 0 children
  | some k => simpa using hshift k 0 children

/-- Whether a child is held, by its place: a value is, and what is in held parentheses. -/
def holdsAt (n : Node) (held : Bool) (index : Nat) : Bool :=
  if n.kind = "parenthesized_expression" then n.firstPart? == some index && held
  else n.value? == some index

theorem isHeld_cons (n : Node) (index : Nat) (above : List Step) :
    isHeld (⟨n, index⟩ :: above) = n.holdsAt (isHeld above) index := rfl

theorem markedFunctions_holdsAt_of_parentheses {n : Node} (held : Bool)
    (h : n.kind = "parenthesized_expression") :
    markedFunctions (n.holdsAt held) 0 n.children = if held then n.core?.toList else [] := by
  have hmarked : n.holdsAt held = fun i => n.firstPart? == some i && held := by
    funext i
    exact if_pos h
  cases held with
  | true =>
    simp only [hmarked, Bool.and_true]
    rw [markedFunctions_single, core?_of_parentheses h]
    rfl
  | false =>
    simp only [hmarked, Bool.and_false]
    exact markedFunctions_false 0 n.children

theorem markedFunctions_holdsAt {n : Node} (held : Bool)
    (h : n.kind ≠ "parenthesized_expression") :
    markedFunctions (n.holdsAt held) 0 n.children = n.held?.toList := by
  have hmarked : n.holdsAt held = fun i => n.value? == some i := by
    funext i
    exact if_neg h
  rw [hmarked, markedFunctions_single, held?_eq]

/-! ## Nodes that the walk does not enter -/

theorem core?_eq_none_of_isTidy {n c : Node} {held : Bool} {index : Nat} (htidy : n.isTidy = true)
    (hchild : n.children[index]? = some c) (hheld : n.holdsAt held index = true)
    (hc : c.isSignificant = false) : c.core? = none := by
  have hnamed : c.named = true := by
    unfold holdsAt at hheld
    split at hheld
    · -- The first part of parentheses is significant.
      simp only [Bool.and_eq_true, beq_iff_eq, firstPart?] at hheld
      obtain ⟨hlt, hsig, -⟩ := List.findIdx?_eq_some_iff_getElem.1 hheld.1
      rw [List.getElem?_eq_getElem hlt, Option.some.injEq] at hchild
      rw [hchild] at hsig
      simp [hsig] at hc
    · exact named_of_isTidy htidy (by simpa using hheld) hchild
  have hcomment : c.isComment = true := by
    simpa [isSignificant, hnamed] using hc
  refine core?_of_ne ?_ (isFunction_eq_false_of_isComment hcomment)
  intro hkind
  simp [isComment, hkind] at hcomment

theorem nodes_filter_eq_nil_of_isTidy {c : Node} (htidy : c.isTidy = true)
    (hc : c.isSignificant = false) :
    (c.nodes.filter fun x => x.named && x.isFunction) = [] := by
  rw [nodes_eq_cons, descendants, children_eq_nil_of_isTidy htidy hc, nodesOf, List.filter_cons,
    List.filter_nil]
  refine if_neg ?_
  intro h
  rw [Bool.and_eq_true] at h
  have hcomment : c.isComment = true := by
    simpa [isSignificant, h.1] using hc
  rw [isFunction_eq_false_of_isComment hcomment] at h
  exact absurd h.2 (by simp)

/-! ## One node -/

/-- The function that is located at a node, by whether the node itself is held, with the node that
can name it. -/
def locatedAt (held : Bool) (n : Node) : Option (Node × Option Node) :=
  match n.held? with
  | some function => some (function, n.target?)
  | none => if n.isFunction && !held then some (n, none) else none

def locateAs (options : TokenOptions) (held : Bool) (n : Node) : Except Fault (Signal Located) :=
  match n.locatedAt held with
  | some (function, target) => (function.located options target).map .emit
  | none => .ok .pass

def ShowsTokens (options : TokenOptions) (n : Node) (found : Located) : Prop :=
  n.tokens options = .ok found.tokens

theorem showsTokens_of_located {options : TokenOptions} {n : Node} {target : Option Node}
    {found : Located} (h : n.located options target = .ok found) : n.ShowsTokens options found := by
  rw [located, bind_eq_ok] at h
  obtain ⟨name, -, h⟩ := h
  rw [bind_eq_ok] at h
  obtain ⟨tokens, htokens, h⟩ := h
  cases h
  exact htokens

/-- What is located at a node and what its holder located for it are the node's own function and
what its children have been located for. -/
theorem locatedAt_append (held : Bool) {n : Node} (hn : n.isSignificant = true) :
    (n.locatedAt held).toList.map Prod.fst ++ (if held then n.core?.toList else []) =
      (if n.named && n.isFunction then [n] else []) ++
        markedFunctions (n.holdsAt held) 0 n.children := by
  have hnamed : n.named = true := by
    rw [isSignificant, Bool.and_eq_true] at hn
    exact hn.1
  rw [hnamed, Bool.true_and]
  by_cases hkind : n.kind = "parenthesized_expression"
  · have hfunction : n.isFunction = false := by
      rw [← Bool.not_eq_true]
      exact fun h => kind_ne_parentheses_of_isFunction h hkind
    rw [markedFunctions_holdsAt_of_parentheses held hkind, locatedAt, held?_eq,
      value?_eq_none_of_parentheses hkind, hfunction]
    rfl
  · rw [markedFunctions_holdsAt held hkind]
    by_cases hfunction : n.isFunction = true
    · have hnone : n.held? = none := by
        rw [held?_eq, value?_eq_none_of_isFunction hfunction]
        rfl
      rw [locatedAt, hnone, core?_of_isFunction hfunction, hfunction]
      cases held <;> rfl
    · rw [Bool.not_eq_true] at hfunction
      rw [core?_of_ne hkind hfunction, locatedAt, hfunction]
      cases n.held? <;> cases held <;> rfl

/-! ## Below a node -/

/-- Settles what is due at a node: `due` of it has been paid further up, `own` and `marked` are what
the node and its children owe. -/
theorem append_perm_append_of_eq {paid due own marked found functions : List Node}
    (heq : paid ++ due = own ++ marked) (hperm : (found ++ marked).Perm functions) :
    (paid ++ found ++ due).Perm (own ++ functions) :=
  calc paid ++ found ++ due
    _ = paid ++ (found ++ due) := List.append_assoc ..
    List.Perm _ (paid ++ (due ++ found)) := List.perm_append_comm.append_left paid
    _ = own ++ marked ++ found := by rw [← List.append_assoc, heq]
    _ = own ++ (marked ++ found) := List.append_assoc ..
    List.Perm _ (own ++ functions) := (List.perm_append_comm.trans hperm).append_left own

/-- Puts what is located in two places, each with what was located for it before, together. -/
theorem perm_append_append {found found' before before' functions functions' : List Node}
    (h : (found ++ before).Perm functions) (h' : (found' ++ before').Perm functions') :
    (found ++ found' ++ (before ++ before')).Perm (functions ++ functions') :=
  calc found ++ found' ++ (before ++ before')
    _ = found ++ (found' ++ before ++ before') := by simp only [List.append_assoc]
    List.Perm _ (found ++ (before ++ found' ++ before')) :=
      (List.perm_append_comm.append_right before').append_left found
    _ = (found ++ before) ++ (found' ++ before') := by simp only [List.append_assoc]
    List.Perm _ (functions ++ functions') := h.append h'

theorem filter_nodes (p : Node → Bool) (n : Node) :
    n.nodes.filter p = (if p n then [n] else []) ++ n.descendants.filter p := by
  rw [nodes_eq_cons, List.filter_cons]
  split <;> rfl

mutual

/-- The functions that are located at a node and below it, in the order in which a walk comes to
where they are located. -/
def emittedAt (held : Bool) : Node → List (Node × Option Node)
  | n@⟨_, children⟩ => (n.locatedAt held).toList ++ emittedAll (n.holdsAt held) 0 children

def emittedAll (marked : Nat → Bool) (index : Nat) : List Node → List (Node × Option Node)
  | [] => []
  | c :: rest =>
    (if c.isSignificant then emittedAt (marked index) c else []) ++
      emittedAll marked (index + 1) rest

end

mutual

/-- At a node the function that its holder has located is set off against what is located below. -/
theorem emittedAt_perm : ∀ (n : Node) (held : Bool), n.isSignificant = true →
    (∀ c ∈ n.nodes, c.isTidy = true) →
    ((emittedAt held n).map Prod.fst ++ if held then n.core?.toList else []).Perm
      (n.nodes.filter fun c => c.named && c.isFunction)
  | ⟨label, children⟩, held, hsig, htidy => by
    have hself : isTidy ⟨label, children⟩ = true := htidy _ (mem_nodes_self _)
    have hperm := emittedAll_perm (holdsAt ⟨label, children⟩ held) 0 children
      (fun i c hc hmark hskip => core?_eq_none_of_isTidy hself hc (by simpa using hmark) hskip)
      (fun c hc => htidy c (List.mem_cons_of_mem _ hc))
    rw [emittedAt, List.map_append, filter_nodes]
    exact append_perm_append_of_eq (locatedAt_append held hsig) hperm

/-- Among children, what is located for them from above is set off against what is located in
them. -/
theorem emittedAll_perm (marked : Nat → Bool) (index : Nat) : ∀ children : List Node,
    (∀ i c, children[i]? = some c → marked (index + i) = true → c.isSignificant = false →
      c.core? = none) →
    (∀ c ∈ nodesOf children, c.isTidy = true) →
    ((emittedAll marked index children).map Prod.fst ++ markedFunctions marked index children).Perm
      ((nodesOf children).filter fun c => c.named && c.isFunction)
  | [], hskip, htidy => .refl _
  | c :: rest, hskip, htidy => by
    have hcTidy : ∀ x ∈ c.nodes, x.isTidy = true := fun x hx => htidy x (List.mem_append_left _ hx)
    have hrest := emittedAll_perm marked (index + 1) rest
      (fun i x hx hmark =>
        hskip (i + 1) x hx (by rwa [show index + (i + 1) = index + 1 + i by omega]))
      (fun x hx => htidy x (List.mem_append_right _ hx))
    rw [nodesOf, List.filter_append, markedFunctions, emittedAll, List.map_append]
    by_cases hsig : c.isSignificant = true
    · rw [if_pos hsig]
      exact perm_append_append (emittedAt_perm c (marked index) hsig hcTidy) hrest
    · have hskipped : c.isSignificant = false := by simpa using hsig
      have hown : (if marked index then c.core?.toList else []) = [] := by
        split
        · rename_i hmark
          rw [hskip 0 c rfl hmark hskipped]
          rfl
        · rfl
      rw [if_neg hsig, hown, nodes_filter_eq_nil_of_isTidy (hcTidy c (mem_nodes_self c)) hskipped]
      exact hrest

end

/-! ## The walk -/

/-- Whether the node at the end of these steps is held, if the one that they start from is as
`outer` says. -/
def heldWithin (outer : Bool) : List Step → Bool
  | [] => outer
  | ⟨parent, index⟩ :: above => parent.holdsAt (heldWithin outer above) index

theorem heldWithin_false (above : List Step) : heldWithin false above = isHeld above := by
  induction above with
  | nil => rfl
  | cons step above ih => rw [heldWithin, ih, isHeld_cons]

theorem heldWithin_append_singleton (outer : Bool) (inner : List Step) (n : Node) (index : Nat) :
    heldWithin outer (inner ++ [⟨n, index⟩]) = heldWithin (n.holdsAt outer index) inner := by
  induction inner with
  | nil => rfl
  | cons step inner ih => rw [List.cons_append, heldWithin, ih, heldWithin]

/-- A visitor that locates functions below some steps, where the node at these steps is held or
not. -/
def Locates (options : TokenOptions) (visit : String → Site → Except Fault (Signal Located))
    (above : List Step) (held : Bool) : Prop :=
  ∀ path inner n, visit path ⟨n, inner ++ above⟩ = n.locateAs options (heldWithin held inner)

theorem Locates.child {options : TokenOptions}
    {visit : String → Site → Except Fault (Signal Located)} {above : List Step} {held : Bool}
    (h : Locates options visit above held) (n : Node) (index : Nat) :
    Locates options visit (⟨n, index⟩ :: above) (n.holdsAt held index) := by
  intro path inner c
  have hvisit := h path (inner ++ [⟨n, index⟩]) c
  rw [List.append_assoc, heldWithin_append_singleton] at hvisit
  exact hvisit

mutual

theorem toListAll_walkAt_located {options : TokenOptions}
    {visit : String → Site → Except Fault (Signal Located)} :
    ∀ (n : Node) (path : String) {above : List Step} {held : Bool},
      Locates options visit above held →
      (walkAt visit path above n).map Entry.toListAll =
        (emittedAt held n).mapM fun e => e.1.located options e.2
  | ⟨label, children⟩, path, above, held, hlocates => by
    have hvisit : visit path ⟨⟨label, children⟩, above⟩ = locateAs options held ⟨label, children⟩ :=
      hlocates path [] _
    have hinner := toListAll_walkAll_located ⟨label, children⟩ (holdsAt ⟨label, children⟩ held)
      children path 0 (fun i => hlocates.child _ i)
    rw [walkAt, hvisit, locateAs, emittedAt]
    cases locatedAt held ⟨label, children⟩ with
    | none =>
      rw [Option.toList_none, List.nil_append, ← hinner]
      cases walkAll visit path above ⟨label, children⟩ 0 children <;> rfl
    | some e =>
      obtain ⟨function, target⟩ := e
      rw [Option.toList_some, List.singleton_append, List.mapM_cons, ← hinner]
      dsimp only
      cases function.located options target with
      | error fault => rfl
      | ok found =>
        cases walkAll visit path above ⟨label, children⟩ 0 children with
        | error fault => rfl
        | ok inner => exact congrArg Except.ok (Signal.toListAll_collect (.emit found) path inner)

theorem toListAll_walkAll_located {options : TokenOptions}
    {visit : String → Site → Except Fault (Signal Located)} (parent : Node) (marked : Nat → Bool) :
    ∀ (children : List Node) (path : String) {above : List Step} (index : Nat),
      (∀ i, Locates options visit (⟨parent, i⟩ :: above) (marked i)) →
      (walkAll visit path above parent index children).map Entry.toListAll =
        (emittedAll marked index children).mapM fun e => e.1.located options e.2
  | [], path, above, index, hlocates => rfl
  | c :: rest, path, above, index, hlocates => by
    have hrest := toListAll_walkAll_located parent marked rest path (index + 1) hlocates
    rw [walkAll, emittedAll]
    by_cases hsig : c.isSignificant = true
    · have hhere := toListAll_walkAt_located c (childPath path index c) (hlocates index)
      rw [if_pos hsig, if_pos hsig, List.mapM_append, ← hhere, ← hrest]
      cases walkAt visit (childPath path index c) (⟨parent, index⟩ :: above) c with
      | error fault => rfl
      | ok here =>
        cases walkAll visit path above parent (index + 1) rest with
        | error fault => rfl
        | ok later => exact congrArg Except.ok (Entry.toListAll_append here later)
    · rw [if_neg hsig, if_neg hsig]
      exact hrest

end

end Node

namespace Site

/-- The functions below a root in the order in which they are located, each with the node that can
name it. -/
def emitted (root : Site) : List (Node × Option Node) :=
  Node.emittedAll (fun _ => false) 0 root.node.children

theorem locates_locate (options : TokenOptions) (root : Site) (i : Nat) :
    Node.Locates options (fun _ s => s.locate options (s.above.length - root.above.length))
      (⟨root.node, i⟩ :: root.above) false := by
  intro path inner n
  have hdepth : (inner ++ ⟨root.node, i⟩ :: root.above).length - root.above.length - 1 =
      inner.length := by
    simp only [List.length_append, List.length_cons]
    omega
  simp only [hdepth, locate, List.take_left', Node.heldWithin_false, Node.locateAs, Node.locatedAt]
  cases n.held? with
  | some function => rfl
  | none => dsimp only; split <;> rfl

theorem toListAll_functions (options : TokenOptions) (root : Site) :
    (root.functions options).map Entry.toListAll =
      root.emitted.mapM fun e => e.1.located options e.2 :=
  Node.toListAll_walkAll_located _ _ _ _ _ (locates_locate options root)

theorem emitted_perm {root : Site} (htidy : ∀ n ∈ root.node.nodes, n.isTidy = true) :
    (root.emitted.map Prod.fst).Perm root.node.functionsBelow := by
  have hperm := Node.emittedAll_perm (fun _ => false) 0 root.node.children
    (fun i c _ hheld => absurd hheld (by simp)) (fun c hc => htidy c ?_)
  · rwa [Node.markedFunctions_false, List.append_nil] at hperm
  · rw [Node.nodes_eq_cons]
    exact List.mem_cons_of_mem _ hc

end Site

/-! ## From the forest to the signature -/

namespace Located

mutual

theorem nameEntry_tokens (parent : String) (names : GivenNames) :
    ∀ e : Entry Located,
      (nameEntry parent names e).1.map Prod.snd = (Entry.toList e).map tokens
  | ⟨path, function, children⟩ => by
    simp only [nameEntry, Entry.toList, List.map_cons]
    rw [nameAll_tokens]

theorem nameAll_tokens (parent : String) (names : GivenNames) :
    ∀ forest : List (Entry Located),
      (nameAll parent names forest).1.map Prod.snd = (Entry.toListAll forest).map tokens
  | [] => rfl
  | e :: rest => by
    simp only [nameAll, Entry.toListAll, List.map_append]
    rw [nameEntry_tokens, nameAll_tokens]

end

theorem flatten_tokens_perm (forest : List (Entry Located)) :
    ((flatten forest).map FunctionSignature.statementTokens).Perm
      ((Entry.toListAll forest).map tokens) := by
  have hmap : (flatten forest).map FunctionSignature.statementTokens =
      ((named forest).mergeSort fun a b => textLe a.1 b.1).map Prod.snd := by
    rw [flatten]
    apply List.ext_getElem?
    intro i
    simp only [List.getElem?_map, List.getElem?_mapIdx]
    cases ((named forest).mergeSort fun a b => textLe a.1 b.1)[i]? <;> rfl
  rw [hmap, ← nameAll_tokens "" {} forest]
  exact (List.mergeSort_perm _ _).map Prod.snd

end Located

/-- **Every function is extracted exactly once.**  The functions of a signature can be matched with
the named functions strictly below the root, one with one, such that each has the tokens of its
node. -/
theorem Signature.functions_of_extract {options : TokenOptions} {root : Site} {s : Signature}
    (htidy : ∀ n ∈ root.node.nodes, n.isTidy = true) (h : Signature.extract options root = .ok s) :
    ∃ arranged : List Node, arranged.Perm root.node.functionsBelow ∧
      List.Forall₂ (fun n f => n.tokens options = .ok f.statementTokens) arranged s.functions := by
  rw [extract, bind_eq_ok] at h
  obtain ⟨forest, hforest, h⟩ := h
  rw [bind_eq_ok] at h
  obtain ⟨literals, -, h⟩ := h
  cases h
  have htokens : List.Forall₂ (fun n tokens => n.tokens options = .ok tokens)
      (root.emitted.map Prod.fst) ((Entry.toListAll forest).map Located.tokens) := by
    have hlocated := root.toListAll_functions options
    rw [hforest] at hlocated
    rw [List.forall₂_map_left_iff, List.forall₂_map_right_iff]
    refine (forall₂_of_mapM_eq_ok hlocated.symm).imp fun e found h => ?_
    exact Node.showsTokens_of_located h
  obtain ⟨arranged, harranged, hmatch⟩ :=
    exists_perm_forall₂ htokens (Located.flatten_tokens_perm forest).symm
  rw [List.forall₂_map_right_iff] at hmatch
  exact ⟨arranged, harranged.trans (Site.emitted_perm htidy), hmatch⟩

def Node.plain (kind : String) (field : Option String) (children : List Node) : Node :=
  ⟨⟨0, kind, true, field, 0, ⟨0, 0⟩, ""⟩, children⟩

/-- A declarator that holds a function in parentheses, behind a comment; the function returns one
function and calls another. -/
def Node.heldTwice : Node :=
  .plain "program" none [.plain "variable_declarator" none [
    .plain "identifier" (some "name") [],
    .plain "parenthesized_expression" (some "value") [
      .plain "comment" none [],
      .plain "function_expression" none [.plain "statement_block" (some "body") [
        .plain "expression_statement" none [.plain "call_expression" none [
          .plain "arrow_function" (some "function") [.plain "identifier" (some "body") []]]],
        .plain "return_statement" none [
          .plain "arrow_function" none [.plain "identifier" (some "body") []]]]]]]]

theorem Signature.functions_of_extract_heldTwice :
    ∃ s, Signature.extract {} ⟨Node.heldTwice, []⟩ = .ok s ∧
      Node.heldTwice.functionsBelow.length = 3 ∧
      ∃ arranged : List Node, arranged.Perm Node.heldTwice.functionsBelow ∧
        List.Forall₂ (fun n f => n.tokens {} = .ok f.statementTokens) arranged s.functions := by
  have hok : (Signature.extract {} ⟨Node.heldTwice, []⟩).isOk = true := by decide
  cases hs : Signature.extract {} ⟨Node.heldTwice, []⟩ with
  | error fault =>
    rw [hs] at hok
    cases hok
  | ok s =>
    have harranged := Signature.functions_of_extract (by decide) hs
    exact ⟨s, rfl, by decide, harranged⟩

end Fingerprint
