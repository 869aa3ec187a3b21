import Mathlib.Data.List.Nodup
import Fingerprint.Function.Locator
import Fingerprint.Proofs.Function.Nesting
import Fingerprint.Proofs.Tree.Offers
import Fingerprint.Proofs.Tree.Traversal
/-!
# Local names

The locator goes down from holders to what they hold and keeps a record of what it has located.
The name of a function can as well be read off the way that leads up from it: only the node that
holds it counts, and what was located before never does.
-/

namespace Fingerprint

namespace Node

/-! ## Numbers -/

/-- Whether the numbers of a node and of all below it tell them apart. -/
def IsNumbered (n : Node) : Prop := (n.nodes.map number).Nodup

instance (n : Node) : Decidable n.IsNumbered := inferInstanceAs (Decidable (List.Nodup _))

theorem IsNumbered.eq_of_number_eq {n a b : Node} (h : n.IsNumbered) (ha : a ∈ n.nodes)
    (hb : b ∈ n.nodes) (hnumber : a.number = b.number) : a = b :=
  List.inj_on_of_nodup_map h ha hb hnumber

theorem nodesOf_eq_flatMap (children : List Node) : nodesOf children = children.flatMap nodes := by
  induction children with
  | nil => rfl
  | cons c rest ih => rw [nodesOf, ih, List.flatMap_cons]

theorem IsNumbered.nodup_nodesOf {n : Node} (h : n.IsNumbered) :
    ((nodesOf n.children).map number).Nodup := by
  rw [IsNumbered, nodes_eq_cons, List.map_cons, List.nodup_cons] at h
  exact h.2

theorem index_eq_of_mem_nodes {children : List Node} (h : ((nodesOf children).map number).Nodup)
    {i j : Nat} {c d g : Node} (hc : children[i]? = some c) (hd : children[j]? = some d)
    (hgc : g ∈ c.nodes) (hgd : g ∈ d.nodes) : i = j := by
  rw [nodesOf_eq_flatMap] at h
  have hpairwise := List.pairwise_iff_getElem.1 (List.nodup_flatMap.1 h.of_map).2
  obtain ⟨hi, rfl⟩ := List.getElem?_eq_some_iff.1 hc
  obtain ⟨hj, rfl⟩ := List.getElem?_eq_some_iff.1 hd
  rcases Nat.lt_trichotomy i j with hlt | heq | hlt
  · exact absurd hgd (hpairwise i j hi hj hlt hgc)
  · exact heq
  · exact absurd hgc (hpairwise j i hj hi hlt hgd)

/-! ## What is located at a node stands there -/

theorem mem_nodes_of_core? {n f : Node} (h : n.core? = some f) : f ∈ n.nodes := by
  obtain ⟨hbare, -⟩ := Option.filter_eq_some_iff.1 h
  rw [← Option.some.inj hbare]
  exact bare_mem_nodes n

theorem isFunction_of_core? {n f : Node} (h : n.core? = some f) : f.isFunction = true :=
  (Option.filter_eq_some_iff.1 h).2

theorem exists_of_held? {n f : Node} (h : n.held? = some f) :
    f.isFunction = true ∧ f ∈ n.nodes ∧ n.core? = none := by
  rw [held?_eq, Option.bind_eq_some_iff] at h
  obtain ⟨c, hc, hcore⟩ := h
  obtain ⟨index, hvalue, hchild⟩ := Option.bind_eq_some_iff.1 hc
  refine ⟨isFunction_of_core? hcore, ?_, core?_of_ne (fun hkind => ?_) ?_⟩
  · exact mem_nodes_trans (mem_nodes_of_core? hcore) n
      (mem_nodes_of_mem_children (List.mem_of_getElem? hchild))
  · rw [value?_eq_none_of_parentheses hkind] at hvalue
    cases hvalue
  · rw [← Bool.not_eq_true]
    intro hfunction
    rw [value?_eq_none_of_isFunction hfunction] at hvalue
    cases hvalue

theorem mem_nodes_of_mem_locatedAt {n : Node} {held : Bool} {e : Node × Option Node}
    (h : e ∈ n.locatedAt held) : e.1 ∈ n.nodes := by
  unfold locatedAt at h
  split at h
  · cases h
    exact (exists_of_held? ‹_›).2.1
  · split at h
    · cases h
      exact mem_nodes_self n
    · cases h

mutual

theorem mem_nodes_of_mem_emittedAt {e : Node × Option Node} :
    ∀ (n : Node) {held : Bool}, e ∈ emittedAt held n → e.1 ∈ n.nodes
  | ⟨label, children⟩, held, h => by
    rw [emittedAt, List.mem_append, Option.mem_toList] at h
    rcases h with hlocated | hbelow
    · exact mem_nodes_of_mem_locatedAt hlocated
    · exact List.mem_cons_of_mem _ (mem_nodesOf_of_mem_emittedAll children hbelow)

theorem mem_nodesOf_of_mem_emittedAll {e : Node × Option Node} :
    ∀ (children : List Node) {marked : Nat → Bool} {index : Nat},
      e ∈ emittedAll marked index children → e.1 ∈ nodesOf children
  | [], marked, index, h => by cases h
  | c :: rest, marked, index, h => by
    rw [emittedAll, List.mem_append] at h
    rw [nodesOf, List.mem_append]
    rcases h with hhere | hlater
    · split at hhere
      · exact .inl (mem_nodes_of_mem_emittedAt c hhere)
      · cases hhere
    · exact .inr (mem_nodesOf_of_mem_emittedAll rest hlater)

end

theorem mem_markedFunctions {marked : Nat → Bool} {g : Node} :
    ∀ {index : Nat} {children : List Node}, g ∈ markedFunctions marked index children ↔
      ∃ i c, children[i]? = some c ∧ marked (index + i) = true ∧ c.core? = some g
  | index, [] => by simp [markedFunctions]
  | index, c :: rest => by
    rw [markedFunctions, List.mem_append, mem_markedFunctions]
    constructor
    · rintro (h | ⟨i, d, hd, hmarked, hcore⟩)
      · split at h
        · exact ⟨0, c, rfl, ‹_›, Option.mem_toList.1 h⟩
        · cases h
      · exact ⟨i + 1, d, hd, by rwa [show index + (i + 1) = index + 1 + i by omega], hcore⟩
    · rintro ⟨i, d, hd, hmarked, hcore⟩
      cases i with
      | zero =>
        cases hd
        have hmark : marked index = true := hmarked
        rw [if_pos hmark]
        exact .inl (Option.mem_toList.2 hcore)
      | succ i =>
        exact .inr ⟨i, d, hd, by rwa [show index + 1 + i = index + (i + 1) by omega], hcore⟩

/-! ## The record -/

def recordAfter (emitted : List (Node × Option Node)) (record : List Nat) : List Nat :=
  (emitted.map fun e => e.1.number).reverse ++ record

theorem recordAfter_append (a b : List (Node × Option Node)) (record : List Nat) :
    recordAfter (a ++ b) record = recordAfter b (recordAfter a record) := by
  simp [recordAfter]

theorem mem_recordAfter {emitted : List (Node × Option Node)} {record : List Nat} {k : Nat} :
    k ∈ recordAfter emitted record ↔ (∃ e ∈ emitted, e.1.number = k) ∨ k ∈ record := by
  simp [recordAfter]

/-- What the record knows when the walk comes to a node: of the functions there it has at most the
one that the node is, in or out of parentheses, and has it just when the node is held. -/
def IsRecorded (record : List Nat) (held : Bool) (n : Node) : Prop :=
  ∀ g ∈ n.nodes, g.isFunction = true → (g.number ∈ record ↔ held = true ∧ n.core? = some g)

/-- Locating what is due at a node makes the record right for its children. -/
theorem IsRecorded.child {record : List Nat} {held : Bool} {n : Node}
    (h : IsRecorded record held n) (hsig : n.isSignificant = true) (hnumbers : n.IsNumbered)
    {i : Nat} {c : Node} (hc : n.children[i]? = some c) :
    IsRecorded (recordAfter (n.locatedAt held).toList record) (n.holdsAt held i) c := by
  intro g hg hfunction
  have hchild : c.nodes ⊆ nodesOf n.children := fun x hx =>
    mem_nodesOf.2 ⟨c, List.mem_of_getElem? hc, hx⟩
  have hgn : g ∈ n.nodes := by
    rw [nodes_eq_cons]
    exact List.mem_cons_of_mem _ (hchild hg)
  have hne : g ≠ n := by
    rintro rfl
    rw [IsNumbered, nodes_eq_cons, List.map_cons, List.nodup_cons] at hnumbers
    exact hnumbers.1 (List.mem_map_of_mem (hchild hg))
  have hlocated : (∃ e ∈ (n.locatedAt held).toList, e.1.number = g.number) ↔
      g ∈ (n.locatedAt held).toList.map Prod.fst := by
    rw [List.mem_map]
    refine exists_congr fun e => and_congr_right fun he => ⟨fun hnumber => ?_, congrArg number⟩
    exact hnumbers.eq_of_number_eq (mem_nodes_of_mem_locatedAt (Option.mem_toList.1 he)) hgn hnumber
  have hdue : held = true ∧ n.core? = some g ↔ g ∈ if held then n.core?.toList else [] := by
    cases held <;> simp
  have hown : g ∉ if n.named && n.isFunction then [n] else [] := by
    split <;> simp [hne]
  rw [mem_recordAfter, hlocated, h g hgn hfunction, hdue, ← List.mem_append,
    locatedAt_append held hsig, List.mem_append, or_iff_right hown, mem_markedFunctions]
  constructor
  · rintro ⟨j, d, hd, hmarked, hcore⟩
    obtain rfl := index_eq_of_mem_nodes hnumbers.nodup_nodesOf hc hd hg (mem_nodes_of_core? hcore)
    rw [hc] at hd
    cases hd
    exact ⟨by rwa [Nat.zero_add] at hmarked, hcore⟩
  · rintro ⟨hmarked, hcore⟩
    exact ⟨i, c, hc, by rwa [Nat.zero_add], hcore⟩

/-- Whether a run that starts with one record gives what a computation without a record gives, and
leaves the other record if it succeeds. -/
def Leaves {α : Type} (x : Recording α) (record : List Nat) (y : Except Fault α)
    (after : List Nat) : Prop := x.run record = y.map (·, after)

theorem leaves_pure {α : Type} (a : α) (record : List Nat) :
    Leaves (pure a) record (pure a) record := rfl

theorem Leaves.bind {α β : Type} {x : Recording α} {y : Except Fault α} {f : α → Recording β}
    {g : α → Except Fault β} {record between after : List Nat} (hx : Leaves x record y between)
    (hf : ∀ a, y = .ok a → Leaves (f a) between (g a) after) :
    Leaves (x >>= f) record (y >>= g) after := by
  rw [Leaves, StateT.run_bind, hx]
  cases y with
  | error fault => rfl
  | ok a => exact hf a rfl

theorem leaves_locateOnRecord (options : TokenOptions) (e : Node × Option Node)
    (record : List Nat) :
    Leaves (e.1.locateOnRecord options e.2) record ((e.1.located options e.2).map .emit)
      (recordAfter [e] record) := by
  rw [Leaves, locateOnRecord, located]
  cases e.1.localName e.2 with
  | error fault => rfl
  | ok name => cases e.1.tokens options <;> rfl

theorem leaves_visit {options : TokenOptions} {record : List Nat} {held : Bool} {n : Node}
    (h : IsRecorded record held n) :
    Leaves (n.visit options) record (n.locateAs options held)
      (recordAfter (n.locatedAt held).toList record) := by
  rw [Leaves, visit, StateT.run_bind, StateT.run_get, pure_bind]
  cases hheld : n.held? with
  | some f =>
    obtain ⟨hfunction, hmem, hcore⟩ := exists_of_held? hheld
    have hfree : record.contains f.number = false := by
      rw [← Bool.not_eq_true, List.contains_iff_mem, h f hmem hfunction, hcore]
      exact fun hdue => nomatch hdue.2
    have hlocated : n.locatedAt held = some (f, n.target?) := by rw [locatedAt, hheld]
    rw [locateAs, hlocated, Option.filter_some, hfree]
    exact leaves_locateOnRecord options (f, n.target?) record
  | none =>
    have hlocated : n.locatedAt held = if n.isFunction && !held then some (n, none) else none := by
      rw [locatedAt, hheld]
    have hown : (n.isFunction && !record.contains n.number) = (n.isFunction && !held) := by
      cases hfunction : n.isFunction with
      | false => rfl
      | true =>
        have hdue := h n (mem_nodes_self n) hfunction
        rw [core?_of_isFunction hfunction, and_iff_left rfl, ← List.contains_iff_mem] at hdue
        rw [Bool.eq_iff_iff.2 hdue]
    rw [Option.filter_none, locateAs, hlocated, hown]
    dsimp only
    cases (n.isFunction && !held) with
    | true => exact leaves_locateOnRecord options (n, none) record
    | false => rfl

theorem descend_of_locateAs {options : TokenOptions} {held : Bool} {n : Node}
    {signal : Signal Located} (h : n.locateAs options held = .ok signal) :
    signal.descend = true := by
  unfold locateAs at h
  split at h
  · obtain ⟨found, -, rfl⟩ := map_eq_ok.1 h
    rfl
  · cases h
    rfl

/-! ## The run -/

mutual

theorem leaves_walkAt {options : TokenOptions}
    {visit : String → Site → Except Fault (Signal Located)} :
    ∀ (n : Node) (path : String) {above : List Step} {held : Bool} {record : List Nat},
      Locates options visit above held → n.isSignificant = true → n.IsNumbered →
      IsRecorded record held n →
      Leaves (walkAt (fun _ s => s.node.visit options) path above n) record
        (walkAt visit path above n) (recordAfter (emittedAt held n) record)
  | ⟨label, children⟩, path, above, held, record, hlocates, hsig, hnumbers, hrecord => by
    have hvisit : visit path ⟨⟨label, children⟩, above⟩ = locateAs options held ⟨label, children⟩ :=
      hlocates path [] _
    have hinner := leaves_walkAll ⟨label, children⟩ (holdsAt ⟨label, children⟩ held) children path 0
      _ (fun i => hlocates.child _ i) hnumbers.nodup_nodesOf
      (fun i c hc => Nat.zero_add i ▸ hrecord.child hsig hnumbers hc)
    rw [walkAt, walkAt, hvisit, emittedAt, recordAfter_append]
    refine (leaves_visit hrecord).bind fun signal hsignal => ?_
    rw [if_pos (descend_of_locateAs hsignal), if_pos (descend_of_locateAs hsignal)]
    exact hinner.bind fun inner _ => leaves_pure ..

theorem leaves_walkAll {options : TokenOptions}
    {visit : String → Site → Except Fault (Signal Located)} (parent : Node) (marked : Nat → Bool) :
    ∀ (children : List Node) (path : String) {above : List Step} (index : Nat) (record : List Nat),
      (∀ i, Locates options visit (⟨parent, i⟩ :: above) (marked i)) →
      ((nodesOf children).map number).Nodup →
      (∀ i c, children[i]? = some c → IsRecorded record (marked (index + i)) c) →
      Leaves (walkAll (fun _ s => s.node.visit options) path above parent index children) record
        (walkAll visit path above parent index children)
        (recordAfter (emittedAll marked index children) record)
  | [], path, above, index, record, hlocates, hnumbers, hrecord => leaves_pure ..
  | c :: rest, path, above, index, record, hlocates, hnumbers, hrecord => by
    rw [nodesOf, List.map_append] at hnumbers
    -- Nothing that was located below `c` has the number of a function below the rest.
    have hlater : ∀ emitted : List (Node × Option Node), (∀ e ∈ emitted, e.1 ∈ c.nodes) →
        ∀ i d, rest[i]? = some d →
          IsRecorded (recordAfter emitted record) (marked (index + 1 + i)) d := by
      intro emitted hemitted i d hd g hg hfunction
      rw [mem_recordAfter, show index + 1 + i = index + (i + 1) by omega,
        ← hrecord (i + 1) d hd g hg hfunction, or_iff_right]
      rintro ⟨e, he, hnumber⟩
      refine List.disjoint_of_nodup_append hnumbers (List.mem_map_of_mem (hemitted e he)) ?_
      rw [hnumber]
      exact List.mem_map_of_mem (mem_nodesOf.2 ⟨d, List.mem_of_getElem? hd, hg⟩)
    have hrest := fun record => leaves_walkAll parent marked rest path (index + 1) record hlocates
      hnumbers.of_append_right
    rw [walkAll, walkAll, emittedAll]
    by_cases hsig : c.isSignificant = true
    · have hhere := leaves_walkAt c (childPath path index c) (hlocates index) hsig
        hnumbers.of_append_left (hrecord 0 c rfl)
      rw [if_pos hsig, if_pos hsig, if_pos hsig, recordAfter_append]
      refine hhere.bind fun here _ => Leaves.bind ?_ fun later _ => leaves_pure ..
      exact hrest _ (hlater _ fun e he => mem_nodes_of_mem_emittedAt c he)
    · rw [if_neg hsig, if_neg hsig, if_neg hsig, List.nil_append]
      exact hrest _ (hlater [] fun e he => nomatch he)

end

end Node

/-- With distinct numbers the record changes nothing. -/
theorem Site.functionsOnRecord_eq (options : TokenOptions) {root : Site}
    (hnumbers : root.node.IsNumbered) :
    root.functionsOnRecord options = root.functions options := by
  have hrun := Node.leaves_walkAll root.node (fun _ => false) root.node.children root.node.kind 0 []
    (root.locates_locate options) hnumbers.nodup_nodesOf
    (fun i c _ g _ _ => by simp)
  rw [functionsOnRecord, traverse_eq_walk, StateT.run'_eq, walk, hrun]
  rw [functions, walk]
  cases Node.walkAll (fun _ s => locate options (s.above.length - root.above.length) s)
    root.node.kind root.above root.node 0 root.node.children <;> rfl

/-! ## The way up -/

namespace Node

/-- The node that names what stands at the end of these steps, the last step first: the target of
the node that it is the value of, but for parentheses. -/
def namer? : List Step → Option Node
  | [] => none
  | ⟨parent, index⟩ :: above =>
    if parent.kind = "parenthesized_expression" then
      if parent.firstPart? = some index then namer? above else none
    else if parent.value? = some index then parent.target? else none

theorem namer?_of_isHeld_eq_false {steps : List Step} (h : isHeld steps = false) :
    namer? steps = none := by
  induction steps with
  | nil => rfl
  | cons step above ih =>
    obtain ⟨parent, index⟩ := step
    rw [isHeld] at h
    rw [namer?]
    split at h
    case isTrue hkind =>
      rw [if_pos hkind]
      by_cases hfirst : parent.firstPart? = some index
      · rw [if_pos hfirst]
        exact ih (by simpa [hfirst] using h)
      · rw [if_neg hfirst]
    case isFalse hkind =>
      rw [if_neg hkind, if_neg]
      exact beq_eq_false_iff_ne.1 h

theorem named_bare {n : Node} (h : n.named = true) : n.bare.named = true := by
  induction n using Node.induction with
  | node n ih =>
    by_cases hkind : n.kind = "parenthesized_expression"
    · rw [bare_of_parentheses hkind]
      cases hfirst : n.children.find? isSignificant with
      | none => exact h
      | some c =>
        have hsig := List.find?_some hfirst
        rw [isSignificant, Bool.and_eq_true] at hsig
        exact ih c (List.mem_of_find?_eq_some hfirst) hsig.1
    · rwa [bare_of_ne hkind]

theorem namer?_append_singleton {n : Node} (hvalue : n.value? = none)
    (hkind : n.kind ≠ "parenthesized_expression") (index : Nat) (inner : List Step) :
    namer? (inner ++ [⟨n, index⟩]) = namer? inner := by
  induction inner with
  | nil =>
    have hnone : namer? [⟨n, index⟩] = none := by
      rw [namer?, if_neg hkind, hvalue]
      rfl
    exact hnone
  | cons step inner ih => rw [List.cons_append, namer?, namer?, ih]

end Node

namespace Site

/-- The node that names a site, as far as it stands below the root. -/
def namer? (root s : Site) : Option Node :=
  Node.namer? (s.above.take (s.above.length - (root.above.length + 1)))

/-- In a tree whose root holds nothing the whole way up counts. -/
theorem namer?_eq_of_whole {root s : Site} (habove : root.above = [])
    (hvalue : root.node.value? = none) (hkind : root.node.kind ≠ "parenthesized_expression")
    (hs : s ∈ root.inside) : root.namer? s = Node.namer? s.above := by
  obtain ⟨inner, index, hway⟩ := exists_above_of_mem_inside hs
  rw [habove] at hway
  have htake : s.above.take (s.above.length - (root.above.length + 1)) = inner := by
    rw [hway, habove, List.length_append, List.take_left']
    rfl
  rw [namer?, htake, hway, Node.namer?_append_singleton hvalue hkind]

/-- What a holder holds is named by the target of the holder. -/
theorem namer?_of_held? {root s f : Site} (hs : s ∈ root.inside) (h : s.held? = some f) :
    root.namer? f = s.node.target? := by
  obtain ⟨inner, index, hinner, hvalue, htake⟩ :=
    exists_take_of_held? h (length_above_lt_of_mem_inside hs)
  rw [namer?, htake]
  clear htake
  induction inner with
  | nil => rw [List.nil_append, Node.namer?, if_neg (kind_ne_of_held? h), if_pos hvalue]
  | cons step inner ih =>
    obtain ⟨⟨hkind, hfirst⟩, hinner⟩ := List.forall_mem_cons.1 hinner
    rw [List.cons_append, Node.namer?, if_pos hkind, if_pos hfirst, ih hinner]

/-! ## The sites of located functions -/

theorem named_of_held? {s f : Site} (htidy : s.node.isTidy = true) (h : s.held? = some f) :
    f.node.named = true := by
  have hheld : s.node.held? = some f.node := by rw [← map_node_held?, h, Option.map_some]
  rw [Node.held?_eq, Option.bind_eq_some_iff] at hheld
  obtain ⟨c, hc, hcore⟩ := hheld
  obtain ⟨index, hvalue, hchild⟩ := Option.bind_eq_some_iff.1 hc
  obtain ⟨hbare, -⟩ := Option.filter_eq_some_iff.1 hcore
  rw [← Option.some.inj hbare]
  exact Node.named_bare (Node.named_of_isTidy htidy hvalue hchild)

theorem located_of_occurrence {options : TokenOptions} {root s : Site} {signal : Signal Occurrence}
    (hs : s ∈ root.inside)
    (h : s.occurrence options (s.above.length - root.above.length) = .ok signal) :
    ∀ o ∈ signal.data,
      o.function.node.located options (root.namer? o.function) = .ok o.located := by
  unfold occurrence at h
  cases hheld : s.held? with
  | some f =>
    rw [hheld] at h
    obtain ⟨found, hfound, rfl⟩ := map_eq_ok.1 h
    rintro o ⟨⟩
    rw [namer?_of_held? hs hheld]
    exact hfound
  | none =>
    rw [hheld] at h
    dsimp only at h
    split at h
    · rename_i hown
      rw [Bool.and_eq_true, Bool.not_eq_true', Nat.sub_sub] at hown
      obtain ⟨found, hfound, rfl⟩ := map_eq_ok.1 h
      rintro o ⟨⟩
      rw [namer?, Node.namer?_of_isHeld_eq_false hown.2]
      exact hfound
    · cases h
      rintro o ⟨⟩

section Occurrences

variable {options : TokenOptions} {root : Site} {found : List (Entry Occurrence)}
  (h : root.occurrences options = .ok found)

include h

theorem exists_of_mem_occurrences {o : Occurrence} (ho : o ∈ Entry.toListAll found) :
    o.place ∈ root.inside ∧ o.place.node.isSignificant = true ∧
      ∃ signal, o.place.occurrence options (o.place.above.length - root.above.length) =
        .ok signal ∧ o ∈ signal.data := by
  rw [toListAll_walk h, List.mem_filterMap] at ho
  obtain ⟨s, hs, hkept⟩ := ho
  obtain ⟨signal, hsignal, hdata⟩ := Option.bind_eq_some_iff.1 hkept
  rw [toOption_eq_some] at hsignal
  obtain rfl := (Occurrence.isSound_of_occurrence hsignal o hdata).1
  obtain ⟨hinside, hsig, -⟩ := mem_offered.1 hs
  exact ⟨hinside, hsig, signal, hsignal, hdata⟩

theorem isSound_of_mem_occurrences {o : Occurrence} (ho : o ∈ Entry.toListAll found) :
    o.IsSound options root := by
  obtain ⟨-, -, signal, hsignal, hdata⟩ := exists_of_mem_occurrences h ho
  exact (Occurrence.isSound_of_occurrence hsignal o hdata).2

theorem nodup_occurrences : ((Entry.toListAll found).map Occurrence.function).Nodup := by
  have hplaces : ((Entry.toListAll found).map Occurrence.place).Nodup := by
    refine root.nodup_inside.sublist (nestsAs_walk (fun path s signal hsignal o ho => ?_) h).sublist
    exact (Occurrence.isSound_of_occurrence hsignal o ho).1
  refine (List.nodup_map_iff_inj_on hplaces.of_map).2 fun f hf g hg hsame => ?_
  exact List.inj_on_of_nodup_map hplaces hf hg
    ((isSound_of_mem_occurrences h hf).place_eq (isSound_of_mem_occurrences h hg)
      (exists_of_mem_occurrences h hf).1 (exists_of_mem_occurrences h hg).1 hsame)

theorem function_mem_inside (htidy : ∀ n ∈ root.node.nodes, n.isTidy = true) {o : Occurrence}
    (ho : o ∈ Entry.toListAll found) :
    o.function ∈ root.inside.filter fun s => s.node.named && s.node.isFunction := by
  obtain ⟨hplace, hsig, -⟩ := exists_of_mem_occurrences h ho
  have hsound := isSound_of_mem_occurrences h ho
  rw [List.mem_filter, hsound.isFunction, Bool.and_true]
  rcases hsound.placed with hheld | ⟨hself, -⟩
  · exact ⟨mem_inside_trans (exists_of_held? hheld).1 hplace,
      named_of_held? (htidy _ (node_mem_nodes_of_mem_inside hplace)) hheld⟩
  · rw [Node.isSignificant, Bool.and_eq_true] at hsig
    exact hself ▸ ⟨hplace, hsig.1⟩

theorem length_occurrences (htidy : ∀ n ∈ root.node.nodes, n.isTidy = true) :
    (Entry.toListAll found).length =
      (root.inside.filter fun s => s.node.named && s.node.isFunction).length := by
  have hlocated := root.toListAll_functions options
  rw [functions_eq_occurrences, h] at hlocated
  have hemitted := (forall₂_of_mapM_eq_ok hlocated.symm).length_eq
  rw [Entry.toListAll_mapAll, List.length_map] at hemitted
  rw [← hemitted, ← List.length_map Prod.fst, (emitted_perm htidy).length_eq,
    Node.functionsBelow, ← map_node_inside root, List.filter_map, List.length_map]
  rfl

/-- The sites of the located functions are those of all named functions below the root. -/
theorem occurrences_perm (htidy : ∀ n ∈ root.node.nodes, n.isTidy = true) :
    ((Entry.toListAll found).map Occurrence.function).Perm
      (root.inside.filter fun s => s.node.named && s.node.isFunction) := by
  refine (List.subperm_of_subset (nodup_occurrences h) fun s hs => ?_).perm_of_length_le ?_
  · obtain ⟨o, ho, rfl⟩ := List.mem_map.1 hs
    exact function_mem_inside h htidy ho
  · rw [List.length_map]
    exact Nat.le_of_eq (length_occurrences h htidy).symm

end Occurrences

/-- **The name of a function is told by the way up from it.**  The locator with its record locates
what it would locate without, and each named function below the root once.  Its name is its own, or
what the target of its holder says, or the anonymous one; no other function has a say in it.  In a
whole tree the root is no holder. -/
theorem functionsOnRecord_named {options : TokenOptions} {root : Site}
    (htidy : ∀ n ∈ root.node.nodes, n.isTidy = true) (hnumbers : root.node.IsNumbered) :
    root.functionsOnRecord options = root.functions options ∧
    (∀ forest, root.functionsOnRecord options = .ok forest →
      ∃ sites : List Site,
        sites.Perm (root.inside.filter fun s => s.node.named && s.node.isFunction) ∧
        List.Forall₂ (fun s found => s.node.localName (root.namer? s) = .ok found.name ∧
          s.node.tokens options = .ok found.tokens) sites (Entry.toListAll forest)) ∧
    (∀ s ∈ root.inside, ∀ f, s.held? = some f → root.namer? f = s.node.target?) ∧
    (root.above = [] → root.node.value? = none → root.node.kind ≠ "parenthesized_expression" →
      ∀ s ∈ root.inside, root.namer? s = Node.namer? s.above) := by
  refine ⟨functionsOnRecord_eq options hnumbers, fun forest hforest => ?sites,
    fun s hs f hf => namer?_of_held? hs hf,
    fun habove hvalue hkind s hs => namer?_eq_of_whole habove hvalue hkind hs⟩
  case sites =>
    rw [functionsOnRecord_eq options hnumbers, functions_eq_occurrences, map_eq_ok] at hforest
    obtain ⟨found, hfound, rfl⟩ := hforest
    refine ⟨_, occurrences_perm hfound htidy, ?_⟩
    rw [Entry.toListAll_mapAll, List.forall₂_map_left_iff, List.forall₂_map_right_iff,
      List.forall₂_same]
    intro o ho
    obtain ⟨hplace, -, signal, hsignal, hdata⟩ := exists_of_mem_occurrences hfound ho
    have hlocated := located_of_occurrence hplace hsignal o hdata
    rw [Node.located, bind_eq_ok] at hlocated
    obtain ⟨name, hname, hlocated⟩ := hlocated
    rw [bind_eq_ok] at hlocated
    obtain ⟨tokens, htokens, hlocated⟩ := hlocated
    rw [← Except.ok.inj hlocated]
    exact ⟨hname, htokens⟩

end Site

/-- The rows of `a.b = (function () { return () => 0; });`. -/
def Node.assignedInParentheses : List Row :=
  [⟨"program", true, none, 0, 40, 1⟩,
    ⟨"expression_statement", true, none, 0, 40, 2⟩,
    ⟨"assignment_expression", true, none, 0, 39, 3⟩,
    ⟨"member_expression", true, some "left", 0, 3, 3⟩,
    ⟨"identifier", true, some "object", 0, 1, 0⟩,
    ⟨".", false, none, 1, 2, 0⟩,
    ⟨"property_identifier", true, some "property", 2, 3, 0⟩,
    ⟨"=", false, none, 4, 5, 0⟩,
    ⟨"parenthesized_expression", true, some "right", 6, 39, 3⟩,
    ⟨"(", false, none, 6, 7, 0⟩,
    ⟨"function_expression", true, none, 7, 38, 3⟩,
    ⟨"function", false, none, 7, 15, 0⟩,
    ⟨"formal_parameters", true, some "parameters", 16, 18, 2⟩,
    ⟨"(", false, none, 16, 17, 0⟩,
    ⟨")", false, none, 17, 18, 0⟩,
    ⟨"statement_block", true, some "body", 19, 38, 3⟩,
    ⟨"\x7b", false, none, 19, 20, 0⟩,
    ⟨"return_statement", true, none, 21, 36, 3⟩,
    ⟨"return", false, none, 21, 27, 0⟩,
    ⟨"arrow_function", true, none, 28, 35, 3⟩,
    ⟨"formal_parameters", true, some "parameters", 28, 30, 2⟩,
    ⟨"(", false, none, 28, 29, 0⟩,
    ⟨")", false, none, 29, 30, 0⟩,
    ⟨"=>", false, none, 31, 33, 0⟩,
    ⟨"number", true, some "body", 34, 35, 0⟩,
    ⟨";", false, none, 35, 36, 0⟩,
    ⟨"\x7d", false, none, 37, 38, 0⟩,
    ⟨")", false, none, 38, 39, 0⟩,
    ⟨";", false, none, 39, 40, 0⟩]

theorem Site.functionsOnRecord_named_assignedInParentheses :
    ∃ t forest, Node.ofRows? "a.b = (function () \x7b return () => 0; \x7d);"
        Node.assignedInParentheses = some t ∧
      (Site.mk t []).functionsOnRecord {} = .ok forest ∧
      (Entry.toListAll forest).map Located.name = ["b", "[anonymous]"] ∧
      ∃ sites : List Site,
        sites.Perm ((Site.mk t []).inside.filter fun s => s.node.named && s.node.isFunction) ∧
        List.Forall₂ (fun s found => s.node.localName ((Site.mk t []).namer? s) = .ok found.name ∧
          s.node.tokens {} = .ok found.tokens) sites (Entry.toListAll forest) := by
  have hrows : ((Node.ofRows? "a.b = (function () \x7b return () => 0; \x7d);"
      Node.assignedInParentheses).map fun t =>
        (t.nodes.all Node.isTidy, decide t.IsNumbered,
          ((Site.mk t []).functions {}).toOption.map fun forest =>
            (Entry.toListAll forest).map Located.name)) =
      some (true, true, some ["b", "[anonymous]"]) := by
    decide +kernel
  obtain ⟨t, ht, hrows⟩ := Option.map_eq_some_iff.1 hrows
  simp only [Prod.mk.injEq] at hrows
  obtain ⟨htidy, hnumbers, hnames⟩ := hrows
  have hnamed := @functionsOnRecord_named {} ⟨t, []⟩ (List.all_eq_true.1 htidy)
    (of_decide_eq_true hnumbers)
  obtain ⟨forest, hforest, hnames⟩ := Option.map_eq_some_iff.1 hnames
  rw [toOption_eq_some, ← hnamed.1] at hforest
  exact ⟨t, forest, ht, hforest, hnames, hnamed.2.1 forest hforest⟩

end Fingerprint
