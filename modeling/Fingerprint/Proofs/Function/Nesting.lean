import Mathlib.Tactic.Common
import Fingerprint.Proofs.Function.Once
import Fingerprint.Proofs.Tree.Walks
import Fingerprint.Tree.Rows
/-!
# The nesting of located functions

A function is located at itself or, if it is held, at its holder, and entries are nested as the
sites are where they were located.  Between a holder and the function that it holds there are only
parentheses, at which nothing is located.  So the nesting of entries is the nesting of functions,
but for what else is below a holder: what stands in its target or key is put below the function that
it holds.
-/

namespace Fingerprint

/-- A located function with its own site and the site where it was located. -/
structure Occurrence where
  place : Site
  function : Site
  located : Located

namespace Site

/-! ## The site of a held function -/

mutual

def bareBelow (above : List Step) : Node → Site
  | n@⟨label, children⟩ =>
    if label.kind = "parenthesized_expression" then bareAmong above n n 0 children else ⟨n, above⟩

/-- The site of the first significant child, bared, or of `outer` if there is none. -/
def bareAmong (above : List Step) (outer parent : Node) (index : Nat) : List Node → Site
  | [] => ⟨outer, above⟩
  | c :: rest =>
    if c.isSignificant then bareBelow (⟨parent, index⟩ :: above) c
    else bareAmong above outer parent (index + 1) rest

end

def held? (s : Site) : Option Site :=
  (s.node.value?.bind fun index =>
    (s.node.children[index]?).map fun c => bareBelow (⟨s.node, index⟩ :: s.above) c).filter
      (·.node.isFunction)

mutual

theorem node_bareBelow (above : List Step) : ∀ n : Node, (bareBelow above n).node = n.bare
  | ⟨label, children⟩ => by
    rw [bareBelow, Node.bare]
    split
    · exact node_bareAmong above _ _ 0 children
    · rfl

theorem node_bareAmong (above : List Step) (outer parent : Node) (index : Nat) :
    ∀ children : List Node,
      (bareAmong above outer parent index children).node = Node.bareFirst outer children
  | [] => rfl
  | c :: rest => by
    rw [bareAmong, Node.bareFirst]
    split
    · exact node_bareBelow _ c
    · exact node_bareAmong above outer parent (index + 1) rest

end

theorem map_node_held? (s : Site) : s.held?.map node = s.node.held? := by
  rw [held?, Node.held?]
  cases s.node.value? with
  | none => rfl
  | some index =>
    cases hc : s.node.children[index]? with
    | none => simp [hc]
    | some c => simp [hc, Option.filter, node_bareBelow]

mutual

theorem bareBelow_mem_below (above : List Step) :
    ∀ n : Node, bareBelow above n ∈ below above n
  | ⟨label, children⟩ => by
    rw [bareBelow, below]
    split
    · rcases bareAmong_mem above ⟨label, children⟩ ⟨label, children⟩ 0 children with hsame | hbelow
      · rw [hsame]
        exact List.mem_cons_self ..
      · exact List.mem_cons_of_mem _ hbelow
    · exact List.mem_cons_self ..

theorem bareAmong_mem (above : List Step) (outer parent : Node) (index : Nat) :
    ∀ children : List Node, bareAmong above outer parent index children = ⟨outer, above⟩ ∨
      bareAmong above outer parent index children ∈ belowAll above parent index children
  | [] => .inl rfl
  | c :: rest => by
    rw [bareAmong, belowAll]
    split
    · exact .inr (List.mem_append_left _ (bareBelow_mem_below _ c))
    · exact (bareAmong_mem above outer parent (index + 1) rest).imp_right
        (List.mem_append_right _)

end

/-- Each of the steps leads from parentheses to what is in them. -/
def Unwraps (steps : List Step) : Prop :=
  ∀ step ∈ steps, step.parent.kind = "parenthesized_expression" ∧
    step.parent.firstPart? = some step.index

mutual

theorem exists_above_bareBelow (above : List Step) :
    ∀ n : Node, ∃ inner, Unwraps inner ∧ (bareBelow above n).above = inner ++ above
  | ⟨label, children⟩ => by
    rw [bareBelow]
    split
    · refine exists_above_bareAmong above _ _ 0 ‹_› children ?_
      simp [Node.firstPart?]
    · exact ⟨[], List.forall_mem_nil _, rfl⟩

theorem exists_above_bareAmong (above : List Step) (outer parent : Node) (index : Nat)
    (hkind : parent.kind = "parenthesized_expression") :
    ∀ children : List Node,
      parent.firstPart? = (children.findIdx? Node.isSignificant).map (· + index) →
      ∃ inner, Unwraps inner ∧
        (bareAmong above outer parent index children).above = inner ++ above
  | [], _ => ⟨[], List.forall_mem_nil _, rfl⟩
  | c :: rest, hfirst => by
    rw [List.findIdx?_cons] at hfirst
    rw [bareAmong]
    split
    · rename_i hsig
      obtain ⟨inner, hinner, habove⟩ := exists_above_bareBelow (⟨parent, index⟩ :: above) c
      rw [if_pos hsig] at hfirst
      refine ⟨inner ++ [⟨parent, index⟩], List.forall_mem_append.2 ⟨hinner, ?_⟩, ?_⟩
      · exact List.forall_mem_singleton.2 ⟨hkind, by simpa using hfirst⟩
      · rw [habove, List.append_assoc]
        rfl
    · rename_i hskip
      refine exists_above_bareAmong above outer parent (index + 1) hkind rest ?_
      rw [hfirst, if_neg hskip, Option.map_map]
      congr 1
      funext i
      simp only [Function.comp_apply]
      omega

end

section Held

variable {s t f : Site} (h : s.held? = some f)
include h

theorem isFunction_of_held? : f.node.isFunction = true := (Option.filter_eq_some_iff.1 h).2

/-- From a holder the way to what it holds leads to its value and through parentheses. -/
theorem exists_of_held? :
    f ∈ s.inside ∧ ∃ inner index, Unwraps inner ∧ s.node.value? = some index ∧
      f.above = inner ++ ⟨s.node, index⟩ :: s.above := by
  obtain ⟨hvalue, -⟩ := Option.filter_eq_some_iff.1 h
  obtain ⟨index, hindex, hvalue⟩ := Option.bind_eq_some_iff.1 hvalue
  obtain ⟨c, hc, rfl⟩ := Option.map_eq_some_iff.1 hvalue
  obtain ⟨inner, hinner, habove⟩ := exists_above_bareBelow (⟨s.node, index⟩ :: s.above) c
  refine ⟨?_, inner, index, hinner, hindex, habove⟩
  have hmem := bareBelow_mem_below (⟨s.node, index⟩ :: s.above) c
  rw [below_child] at hmem
  exact mem_inside_iff.2 ⟨index, c, hc, List.mem_cons.1 hmem⟩

theorem kind_ne_of_held? : s.node.kind ≠ "parenthesized_expression" := by
  obtain ⟨-, inner, index, -, hvalue, -⟩ := exists_of_held? h
  intro hkind
  rw [Node.value?_eq_none_of_parentheses hkind] at hvalue
  cases hvalue

theorem not_isFunction_of_held? : ¬s.node.isFunction = true := by
  obtain ⟨-, inner, index, -, hvalue, -⟩ := exists_of_held? h
  intro hfunction
  rw [Node.value?_eq_none_of_isFunction hfunction] at hvalue
  cases hvalue

theorem kind_of_between (ht : t ∈ s.inside) (hf : f ∈ t.inside) :
    t.node.kind = "parenthesized_expression" := by
  obtain ⟨-, inner, index, hinner, -, habove⟩ := exists_of_held? h
  obtain ⟨inner', i, habove'⟩ := exists_above_of_mem_inside hf
  have hdeeper := length_above_lt_of_mem_inside ht
  have hlengths := congrArg List.length (habove.symm.trans habove')
  simp only [List.length_append, List.length_cons] at hlengths
  have hlt : inner'.length < inner.length := by omega
  have hstep : f.above[inner'.length]? = some ⟨t.node, i⟩ := by
    rw [habove', List.getElem?_append_right (Nat.le_refl _), Nat.sub_self]
    rfl
  rw [habove, List.getElem?_append_left hlt] at hstep
  exact (hinner _ (List.mem_of_getElem? hstep)).1

theorem exists_take_of_held? {depth : Nat} (hdepth : depth ≤ s.above.length) :
    ∃ inner index, Unwraps inner ∧ s.node.value? = some index ∧
      f.above.take (f.above.length - depth) =
        inner ++ ⟨s.node, index⟩ :: s.above.take (s.above.length - depth) := by
  obtain ⟨-, inner, index, hinner, hvalue, habove⟩ := exists_of_held? h
  have hlength : f.above.length - depth = inner.length + (s.above.length - depth + 1) := by
    rw [habove, List.length_append, List.length_cons]
    omega
  refine ⟨inner, index, hinner, hvalue, ?_⟩
  rw [hlength, habove, List.take_length_add_append, List.take_succ_cons]

theorem isHeld_take_of_held? {depth : Nat} (hdepth : depth ≤ s.above.length) :
    Node.isHeld (f.above.take (f.above.length - depth)) = true := by
  obtain ⟨inner, index, hinner, hvalue, htake⟩ := exists_take_of_held? h hdepth
  rw [htake]
  clear htake
  induction inner with
  | nil =>
    rw [List.nil_append, Node.isHeld, if_neg (kind_ne_of_held? h), hvalue]
    exact beq_self_eq_true _
  | cons step inner ih =>
    obtain ⟨⟨hkind, hfirst⟩, hinner⟩ := List.forall_mem_cons.1 hinner
    rw [List.cons_append, Node.isHeld, if_pos hkind, hfirst, ih hinner, Bool.and_true]
    exact beq_self_eq_true _

end Held

/-! ## Occurrences -/

def occurrence (options : TokenOptions) (depth : Nat) (s : Site) :
    Except Fault (Signal Occurrence) :=
  match s.held? with
  | some f => (f.node.located options s.node.target?).map fun found => .emit ⟨s, f, found⟩
  | none =>
    if s.node.isFunction && !Node.isHeld (s.above.take (depth - 1)) then
      (s.node.located options none).map fun found => .emit ⟨s, s, found⟩
    else .ok .pass

/-- The forest of the functions below a root, with the sites that belong to them. -/
def occurrences (options : TokenOptions) (root : Site) :
    Except Fault (List (Entry Occurrence)) :=
  root.walk fun _ s => s.occurrence options (s.above.length - root.above.length)

theorem locate_eq_occurrence (options : TokenOptions) (depth : Nat) (s : Site) :
    s.locate options depth = (s.occurrence options depth).map (.map Occurrence.located) := by
  unfold locate occurrence
  rw [← map_node_held?]
  cases s.held? with
  | some f =>
    simp only [Option.map_some]
    cases f.node.located options s.node.target? <;> rfl
  | none =>
    simp only [Option.map_none]
    split
    · cases s.node.located options none <;> rfl
    · rfl

theorem functions_eq_occurrences (options : TokenOptions) (root : Site) :
    root.functions options =
      (root.occurrences options).map (Entry.mapAll Occurrence.located) :=
  walk_map (fun _ s => locate_eq_occurrence options _ s) root

end Site

namespace Occurrence

/-- A function is located at its holder if the walk comes to one, and otherwise at itself. -/
structure IsSound (options : TokenOptions) (root : Site) (o : Occurrence) : Prop where
  isFunction : o.function.node.isFunction = true
  shows : o.function.node.ShowsTokens options o.located
  placed : o.place.held? = some o.function ∨
    o.place = o.function ∧
      Node.isHeld (o.function.above.take (o.function.above.length - (root.above.length + 1))) =
        false

theorem isSound_of_occurrence {options : TokenOptions} {root s : Site} {signal : Signal Occurrence}
    (h : s.occurrence options (s.above.length - root.above.length) = .ok signal) :
    ∀ o ∈ signal.data, o.place = s ∧ o.IsSound options root := by
  unfold Site.occurrence at h
  cases hheld : s.held? with
  | some f =>
    rw [hheld] at h
    obtain ⟨found, hfound, rfl⟩ := map_eq_ok.1 h
    rintro o ⟨⟩
    exact ⟨rfl, Site.isFunction_of_held? hheld, Node.showsTokens_of_located hfound, .inl hheld⟩
  | none =>
    rw [hheld] at h
    dsimp only at h
    split at h
    · rename_i hown
      rw [Bool.and_eq_true, Bool.not_eq_true'] at hown
      obtain ⟨found, hfound, rfl⟩ := map_eq_ok.1 h
      rintro o ⟨⟩
      exact ⟨rfl, hown.1, Node.showsTokens_of_located hfound,
        .inr ⟨rfl, by rw [← Nat.sub_sub]; exact hown.2⟩⟩
    · cases h
      rintro o ⟨⟩

section Places

variable {options : TokenOptions} {root : Site} {o p : Occurrence} (ho : o.IsSound options root)
  (hp : p.IsSound options root)

include ho in
theorem IsSound.function_mem : o.function = o.place ∨ o.function ∈ o.place.inside := by
  rcases ho.placed with hheld | ⟨hself, -⟩
  · exact .inr (Site.exists_of_held? hheld).1
  · exact .inl hself.symm

include ho in
theorem IsSound.kind_place_ne : o.place.node.kind ≠ "parenthesized_expression" := by
  rcases ho.placed with hheld | ⟨hself, -⟩
  · exact Site.kind_ne_of_held? hheld
  · rw [hself]
    exact Node.kind_ne_parentheses_of_isFunction ho.isFunction

include ho hp

theorem IsSound.place_eq (hoRoot : o.place ∈ root.inside) (hpRoot : p.place ∈ root.inside)
    (hsame : o.function = p.function) : o.place = p.place := by
  have hclash : ∀ {s f : Site}, s ∈ root.inside → s.held? = some f →
      Node.isHeld (f.above.take (f.above.length - (root.above.length + 1))) = true :=
    fun hs hheld => Site.isHeld_take_of_held? hheld (Site.length_above_lt_of_mem_inside hs)
  rcases ho.placed with hheld | ⟨hself, hfree⟩ <;> rcases hp.placed with hheld' | ⟨hself', hfree'⟩
  · have hmem := (Site.exists_of_held? hheld).1
    have hmem' := (Site.exists_of_held? hheld').1
    rw [← hsame] at hheld' hmem'
    rcases Site.eq_or_mem_inside hmem hmem' with heq | hinside | hinside
    · exact heq
    · exact absurd (Site.kind_of_between hheld hinside hmem') (Site.kind_ne_of_held? hheld')
    · exact absurd (Site.kind_of_between hheld' hinside hmem) (Site.kind_ne_of_held? hheld)
  · rw [← hsame, hclash hoRoot hheld] at hfree'
    cases hfree'
  · rw [hsame, hclash hpRoot hheld'] at hfree
    cases hfree
  · rw [hself, hself', hsame]

/-- A function is located inside of the place of another one just when it stands there. -/
theorem IsSound.place_mem_inside_iff (hoRoot : o.place ∈ root.inside)
    (hpRoot : p.place ∈ root.inside) :
    p.place ∈ o.place.inside ↔ p.function ∈ o.place.inside ∧ p.function ≠ o.function := by
  constructor
  · intro hinside
    refine ⟨?_, fun hsame => ?_⟩
    · rcases hp.function_mem with hself | hmem
      · rwa [hself]
      · exact Site.mem_inside_trans hmem hinside
    · rw [hp.place_eq ho hpRoot hoRoot hsame] at hinside
      exact o.place.not_mem_inside_self hinside
  · rintro ⟨hinside, hne⟩
    rcases hp.placed with hheld | ⟨hself, -⟩
    · have hmem := (Site.exists_of_held? hheld).1
      rcases Site.eq_or_mem_inside hmem hinside with heq | hbetween | hbelow
      · -- The two places are one, which holds a single function.
        rcases ho.placed with hheld' | ⟨hself', -⟩
        · rw [heq, hheld'] at hheld
          exact absurd (Option.some.inj hheld).symm hne
        · refine absurd ho.isFunction ?_
          rw [← hself', ← heq]
          exact Site.not_isFunction_of_held? hheld
      · exact absurd (Site.kind_of_between hheld hbetween hinside) ho.kind_place_ne
      · exact hbelow
    · rwa [hself]

end Places

end Occurrence

/-- **Entries are nested as their functions are, but for functions beside the value of a holder.**
The functions below a root are distinct sites, each located at itself or at its holder.  The entry
of `g` is below the one of `f` if `g` stands inside of `f`, and otherwise only if `g` stands inside
of the holder of `f`, which is then in the target or key that `f` is stored under. -/
theorem Site.functions_nesting {options : TokenOptions} {root : Site}
    {forest : List (Entry Located)} (h : root.functions options = .ok forest) :
    ∃ found, root.occurrences options = .ok found ∧
      Entry.mapAll Occurrence.located found = forest ∧
      ((Entry.toListAll found).map Occurrence.function).Nodup ∧
      (∀ f ∈ Entry.toListAll found, f.function ∈ root.inside ∧ f.IsSound options root) ∧
      ∀ f ∈ Entry.toListAll found, ∀ g ∈ Entry.toListAll found,
        ((f, g) ∈ Entry.nestingsAll found ↔
          g.function ∈ f.function.inside ∨
            g.function ∈ f.place.inside ∧ g.function ≠ f.function ∧
              g.function ∉ f.function.inside) := by
  rw [functions_eq_occurrences, map_eq_ok] at h
  obtain ⟨found, hfound, hforest⟩ := h
  have hvisit := fun (path : String) (s : Site) (signal : Signal Occurrence)
    (hsignal : s.occurrence options (s.above.length - root.above.length) = .ok signal) =>
      Occurrence.isSound_of_occurrence hsignal
  have hnests : Entry.NestsAs Occurrence.place found root.inside :=
    nestsAs_walk (fun path s signal hsignal o ho => (hvisit path s signal hsignal o ho).1) hfound
  have hsound : ∀ o ∈ Entry.toListAll found, o.IsSound options root :=
    forall_mem_walk (fun path s signal hsignal o ho => (hvisit path s signal hsignal o ho).2) hfound
  refine ⟨found, hfound, hforest, ?_, fun f hf => ⟨?_, hsound f hf⟩, fun f hf g hg => ?_⟩
  · have hplaces := hnests.sublist.nodup (nodup_belowAll root.above root.node 0 root.node.children)
    refine (List.nodup_map_iff_inj_on hplaces.of_map).2 fun f hf g hg hsame => ?_
    have hplace := (hsound f hf).place_eq (hsound g hg) (hnests.mem hf) (hnests.mem hg) hsame
    exact List.inj_on_of_nodup_map hplaces hf hg hplace
  · rcases (hsound f hf).function_mem with hself | hmem
    · rw [hself]
      exact hnests.mem hf
    · exact mem_inside_trans hmem (hnests.mem hf)
  · rw [hnests.nested f hf g hg,
      (hsound f hf).place_mem_inside_iff (hsound g hg) (hnests.mem hf) (hnests.mem hg)]
    constructor
    · rintro ⟨hinside, hne⟩
      by_cases hown : g.function ∈ f.function.inside
      · exact .inl hown
      · exact .inr ⟨hinside, hne, hown⟩
    · rintro (hown | ⟨hinside, hne, -⟩)
      · refine ⟨?_, fun hsame => f.function.not_mem_inside_self (hsame ▸ hown)⟩
        rcases (hsound f hf).function_mem with hself | hmem
        · rwa [← hself]
        · exact mem_inside_trans hown hmem
      · exact ⟨hinside, hne⟩

theorem Site.functions_nesting_heldTwice :
    ∃ forest found, (Site.mk Node.heldTwice []).functions {} = .ok forest ∧
      (Site.mk Node.heldTwice []).occurrences {} = .ok found ∧
      Entry.sizes forest = 3 ∧
      ∀ f ∈ Entry.toListAll found, ∀ g ∈ Entry.toListAll found,
        ((f, g) ∈ Entry.nestingsAll found ↔
          g.function ∈ f.function.inside ∨
            g.function ∈ f.place.inside ∧ g.function ≠ f.function ∧
              g.function ∉ f.function.inside) := by
  have hthree : ((Site.mk Node.heldTwice []).functions {}).toOption.map Entry.sizes = some 3 := by
    decide
  cases hforest : (Site.mk Node.heldTwice []).functions {} with
  | error fault =>
    rw [hforest] at hthree
    cases hthree
  | ok forest =>
    obtain ⟨found, hfound, -, -, -, hnested⟩ := Site.functions_nesting hforest
    rw [hforest] at hthree
    exact ⟨forest, found, rfl, hfound, Option.some.inj hthree, hnested⟩

/-- The rows of `o[function () {}] = function () {};`. -/
def Node.indexedByFunction : List Row :=
  [⟨"program", true, none, 0, 35, 1⟩,
    ⟨"expression_statement", true, none, 0, 35, 2⟩,
    ⟨"assignment_expression", true, none, 0, 34, 3⟩,
    ⟨"subscript_expression", true, some "left", 0, 17, 4⟩,
    ⟨"identifier", true, some "object", 0, 1, 0⟩,
    ⟨"[", false, none, 1, 2, 0⟩] ++ emptyFunction "index" 2 ++
    [⟨"]", false, none, 16, 17, 0⟩,
      ⟨"=", false, none, 18, 19, 0⟩] ++ emptyFunction "right" 20 ++
    [⟨";", false, none, 34, 35, 0⟩]
where
  /-- The rows of `function () {}` under a field. -/
  emptyFunction (field : String) (start : Nat) : List Row :=
    [⟨"function_expression", true, some field, start, start + 14, 3⟩,
      ⟨"function", false, none, start, start + 8, 0⟩,
      ⟨"formal_parameters", true, some "parameters", start + 9, start + 11, 2⟩,
      ⟨"(", false, none, start + 9, start + 10, 0⟩,
      ⟨")", false, none, start + 10, start + 11, 0⟩,
      ⟨"statement_block", true, some "body", start + 12, start + 14, 2⟩,
      ⟨"\x7b", false, none, start + 12, start + 13, 0⟩,
      ⟨"\x7d", false, none, start + 13, start + 14, 0⟩]

/-- The function that is the index of a target stands beside the one that is assigned to it, but is
located below it. -/
theorem Site.functions_nesting_indexedByFunction :
    ∃ t found,
      Node.ofRows? "o[function () \x7b\x7d] = function () \x7b\x7d;" Node.indexedByFunction =
        some t ∧
      (Site.mk t []).occurrences {} = .ok found ∧
      ∃ f g, (f, g) ∈ Entry.nestingsAll found ∧ g.function ∉ f.function.inside := by
  have hpair : ((Node.ofRows? "o[function () \x7b\x7d] = function () \x7b\x7d;"
      Node.indexedByFunction).map fun t =>
        ((Site.mk t []).occurrences {}).toOption.map fun found =>
          (Entry.nestingsAll found).any fun (f, g) =>
            !(f.function.inside.map (·.node.number)).contains g.function.node.number) =
      some (some true) := by
    decide +kernel
  obtain ⟨t, ht, hpair⟩ := Option.map_eq_some_iff.1 hpair
  cases hfound : (Site.mk t []).occurrences {} with
  | error fault =>
    rw [hfound] at hpair
    cases hpair
  | ok found =>
    rw [hfound] at hpair
    obtain ⟨⟨f, g⟩, hmem, hnumber⟩ := List.any_eq_true.1 (Option.some.inj hpair)
    refine ⟨t, found, ht, hfound, f, g, hmem, fun hinside => ?_⟩
    simp only [Bool.not_eq_true', List.contains_eq_mem, decide_eq_false_iff_not] at hnumber
    exact hnumber (List.mem_map_of_mem hinside)

end Fingerprint
