import Fingerprint.Proofs.Function.Once
import Fingerprint.Proofs.Signature.Faults
/-!
# Functions without a body

Where no string is torn, an extraction fails just when a function below its root has no body, over
the first such function in the order in which functions are located.  No other missing part, no
unknown kind and no depth matters.
-/

namespace Fingerprint

theorem exists_first_of_mapM_eq_error {ε α β : Type} {f : α → Except ε β} {e : ε} {items : List α}
    (h : items.mapM f = .error e) :
    ∃ earlier a later, items = earlier ++ a :: later ∧ (∀ b ∈ earlier, ∃ r, f b = .ok r) ∧
      f a = .error e := by
  induction items with
  | nil => cases h
  | cons a rest ih =>
    rw [List.mapM_cons, bind_eq_error] at h
    rcases h with ha | ⟨r, ha, h⟩
    · exact ⟨[], a, rest, rfl, List.forall_mem_nil _, ha⟩
    · rw [bind_eq_error] at h
      rcases h with hrest | ⟨rs, -, hpure⟩
      · obtain ⟨earlier, b, later, rfl, hearlier, hb⟩ := ih hrest
        exact ⟨a :: earlier, b, later, rfl, List.forall_mem_cons.2 ⟨⟨r, ha⟩, hearlier⟩, hb⟩
      · cases hpure

namespace Node

mutual

theorem exists_of_mem_emittedAt {e : Node × Option Node} : ∀ (n : Node) {held : Bool},
    e ∈ emittedAt held n → ∃ m ∈ n.nodes, ∃ held, m.locatedAt held = some e
  | ⟨label, children⟩, held, h => by
    rw [emittedAt, List.mem_append, Option.mem_toList] at h
    rcases h with hown | hbelow
    · exact ⟨_, mem_nodes_self _, held, hown⟩
    · obtain ⟨m, hm, hlocated⟩ := exists_of_mem_emittedAll children hbelow
      exact ⟨m, List.mem_cons_of_mem _ hm, hlocated⟩

theorem exists_of_mem_emittedAll {e : Node × Option Node} :
    ∀ (children : List Node) {marked : Nat → Bool} {index : Nat},
      e ∈ emittedAll marked index children →
        ∃ m ∈ nodesOf children, ∃ held, m.locatedAt held = some e
  | [], marked, index, h => by cases h
  | c :: rest, marked, index, h => by
    rw [emittedAll, List.mem_append] at h
    rw [nodesOf]
    rcases h with hhere | hlater
    · split at hhere
      · obtain ⟨m, hm, hlocated⟩ := exists_of_mem_emittedAt c hhere
        exact ⟨m, List.mem_append_left _ hm, hlocated⟩
      · cases hhere
    · obtain ⟨m, hm, hlocated⟩ := exists_of_mem_emittedAll rest hlater
      exact ⟨m, List.mem_append_right _ hm, hlocated⟩

end

theorem mem_nodes_of_locatedAt {n function : Node} {target : Option Node} {held : Bool}
    (h : n.locatedAt held = some (function, target)) :
    function ∈ n.nodes ∧ ∀ t, target = some t → t ∈ n.nodes := by
  unfold locatedAt at h
  split at h
  · rename_i hheld
    cases h
    exact ⟨(held?_mem_nodes hheld).1, fun t => target?_mem_nodes⟩
  · split at h
    · cases h
      exact ⟨n.mem_nodes_self, fun t ht => by cases ht⟩
    · cases h

end Node

namespace Site

/-- A function that is not located has no body, or a string below the root is torn. -/
theorem error_of_mem_emitted {options : TokenOptions} {root : Site} {e : Node × Option Node}
    {fault : Fault} (he : e ∈ root.emitted) (h : e.1.located options e.2 = .error fault) :
    (∃ s ∈ root.node.descendants, s.kind = "string" ∧ s.isQuoted = false) ∨
      e.1.child? "body" = none ∧ fault = .malformed e.1.kind e.1.place "body" := by
  obtain ⟨m, hm, held, hlocated⟩ := Node.exists_of_mem_emittedAll root.node.children he
  obtain ⟨hfunction, htarget⟩ := Node.mem_nodes_of_locatedAt hlocated
  rcases Node.error_of_located hfunction htarget h with ⟨-, s, hs, hstring⟩ | hbody
  · exact .inl ⟨s, Node.mem_nodesOf_trans hs _ hm, hstring⟩
  · exact .inr hbody

theorem isSome_body_of_functions {options : TokenOptions} {root : Site}
    {forest : List (Entry Located)} (h : root.functions options = .ok forest) :
    ∀ e ∈ root.emitted, (e.1.child? "body").isSome = true := by
  intro e he
  have hlocated := root.toListAll_functions options
  rw [h] at hlocated
  obtain ⟨found, -, hfound⟩ :=
    exists_of_mem_right (forall₂_of_mapM_eq_ok hlocated.symm).flip he
  exact Node.isSome_body_of_located hfound

end Site

namespace Signature

variable {options : TokenOptions} {root : Site}

/-- Without torn strings, only a function without a body can be at fault, and none is located before
it that has no body either. -/
theorem exists_first_of_extract {fault : Fault}
    (hquoted : ∀ n ∈ root.node.descendants, n.kind = "string" → n.isQuoted = true)
    (h : extract options root = .error fault) :
    ∃ earlier f later, root.emitted.map Prod.fst = earlier ++ f :: later ∧
      (∀ g ∈ earlier, (g.child? "body").isSome = true) ∧ f.child? "body" = none ∧
      fault = .malformed f.kind f.place "body" := by
  have hwhole : ¬∃ s ∈ root.node.descendants, s.kind = "string" ∧ s.isQuoted = false := by
    rintro ⟨s, hs, hkind, htorn⟩
    rw [hquoted s hs hkind] at htorn
    cases htorn
  rw [extract, bind_eq_error] at h
  rcases h with hforest | ⟨forest, -, h⟩
  · have hlocated := root.toListAll_functions options
    rw [hforest] at hlocated
    obtain ⟨earlier, e, later, hsplit, hearlier, he⟩ :=
      exists_first_of_mapM_eq_error hlocated.symm
    have hmem : e ∈ root.emitted := by
      rw [hsplit]
      exact List.mem_append_right _ List.mem_cons_self
    obtain ⟨hbody, hfault⟩ := (Site.error_of_mem_emitted hmem he).resolve_left hwhole
    refine ⟨earlier.map Prod.fst, e.1, later.map Prod.fst, ?_, ?_, hbody, hfault⟩
    · rw [hsplit, List.map_append, List.map_cons]
    · rw [List.forall_mem_map]
      intro g hg
      obtain ⟨found, hfound⟩ := hearlier g hg
      exact Node.isSome_body_of_located hfound
  · rw [bind_eq_error] at h
    rcases h with hliterals | ⟨literals, -, h⟩
    · rw [Site.literals, map_eq_error] at hliterals
      obtain ⟨path, s, hs, hvisit⟩ := Site.exists_visit_of_walk_eq_error hliterals
      obtain ⟨-, string, hstring, htorn⟩ := Site.tears_of_literal hvisit
      exact absurd ⟨string, Node.mem_nodesOf_trans hstring _ hs, htorn⟩ hwhole
    · cases h

/-- A function without a body is at fault, whatever else the tree has. -/
theorem exists_fault_of_mem_emitted {e : Node × Option Node} (he : e ∈ root.emitted)
    (hbody : e.1.child? "body" = none) : ∃ fault, extract options root = .error fault := by
  cases hforest : root.functions options with
  | error fault => exact ⟨fault, bind_eq_error.2 (.inl hforest)⟩
  | ok forest =>
    have hsome := Site.isSome_body_of_functions hforest e he
    rw [hbody] at hsome
    cases hsome

/-- **Without torn strings an extraction fails just over functions without a body.**  The answer is
then the first of them in the order in which functions are located, which are the functions below
the root, each once.  The condition matters: a torn string can be at fault, too. -/
theorem extract_bodies (options : TokenOptions) (root : Site)
    (htidy : ∀ n ∈ root.node.nodes, n.isTidy = true) :
    ((∀ n ∈ root.node.descendants, n.kind = "string" → n.isQuoted = true) →
      ((∃ fault, extract options root = .error fault) ↔
        ∃ f ∈ root.node.functionsBelow, f.child? "body" = none) ∧
      ∀ fault, extract options root = .error fault →
        ∃ earlier f later, root.emitted.map Prod.fst = earlier ++ f :: later ∧
          (∀ g ∈ earlier, (g.child? "body").isSome = true) ∧ f.child? "body" = none ∧
          fault = .malformed f.kind f.place "body") ∧
    ((∃ f ∈ root.node.functionsBelow, f.child? "body" = none) →
      ∃ fault, extract options root = .error fault) ∧
    (root.emitted.map Prod.fst).Perm root.node.functionsBelow ∧
    (root.functions options).map Entry.toListAll =
      root.emitted.mapM fun e => e.1.located options e.2 := by
  have hperm := Site.emitted_perm htidy
  have hfails : (∃ f ∈ root.node.functionsBelow, f.child? "body" = none) →
      ∃ fault, extract options root = .error fault := by
    rintro ⟨f, hf, hbody⟩
    obtain ⟨e, he, rfl⟩ := List.mem_map.1 (hperm.mem_iff.2 hf)
    exact exists_fault_of_mem_emitted he hbody
  refine ⟨fun hquoted => ⟨⟨?_, hfails⟩, fun fault => exists_first_of_extract hquoted⟩, hfails,
    hperm, root.toListAll_functions options⟩
  rintro ⟨fault, hextract⟩
  obtain ⟨earlier, f, later, hsplit, -, hbody, -⟩ := exists_first_of_extract hquoted hextract
  refine ⟨f, hperm.mem_iff.1 ?_, hbody⟩
  rw [hsplit]
  exact List.mem_append_right _ List.mem_cons_self

/-- An assignment of a function to a place that another function is the index of; neither has a
body. -/
def bodiless : Node :=
  .plain "program" none [.plain "assignment_expression" none [
    .plain "subscript_expression" (some "left") [
      .plain "identifier" (some "object") [],
      .plain "function_expression" (some "index") []],
    .plain "arrow_function" (some "right") []]]

/-- The assigned function is located first, although it comes later in the source. -/
theorem extract_bodies_bodiless :
    (∀ n ∈ bodiless.nodes, n.isTidy = true) ∧
      (∀ n ∈ bodiless.descendants, n.kind = "string" → n.isQuoted = true) ∧
      (∃ f ∈ bodiless.functionsBelow, f.child? "body" = none) ∧
      extract {} ⟨bodiless, []⟩ =
        .error (.malformed "arrow_function" "line 1 column 1" "body") := by
  have htidy : ∀ n ∈ bodiless.nodes, n.isTidy = true := by decide
  have hquoted : ∀ n ∈ bodiless.descendants, n.kind = "string" → n.isQuoted = true := by decide
  have hbody : ∃ f ∈ bodiless.functionsBelow, f.child? "body" = none := by decide
  have hemitted : (Site.mk bodiless []).emitted.map Prod.fst =
      [.plain "arrow_function" (some "right") [], .plain "function_expression" (some "index") []] :=
    rfl
  obtain ⟨hquotedCase, hfails, -, -⟩ := extract_bodies {} ⟨bodiless, []⟩ htidy
  obtain ⟨fault, hfault⟩ := hfails hbody
  obtain ⟨earlier, f, later, hsplit, hearlier, -, rfl⟩ := (hquotedCase hquoted).2 fault hfault
  rw [hemitted] at hsplit
  cases earlier with
  | nil =>
    cases hsplit
    exact ⟨htidy, hquoted, hbody, hfault⟩
  | cons g rest =>
    obtain ⟨rfl, -⟩ := List.cons.inj hsplit
    have hg := hearlier _ List.mem_cons_self
    cases hg

/-- All functions that are there have a body, but a string without its closing quote is torn. -/
theorem extract_bodies_missingQuote :
    ∃ root, Node.ofRows? "f(\"é\n);" (stringCall 0) = some root ∧
      (∀ n ∈ root.nodes, n.isTidy = true) ∧
      (∀ f ∈ root.functionsBelow, (f.child? "body").isSome = true) ∧
      ∀ s, extract {} ⟨root, []⟩ ≠ .ok s := by
  have hchecked : (Node.ofRows? "f(\"é\n);" (stringCall 0)).map (fun root =>
      decide (∀ n ∈ root.nodes, n.isTidy = true) &&
        decide (∀ f ∈ root.functionsBelow, (f.child? "body").isSome = true) &&
        !(extract {} ⟨root, []⟩).isOk) = some true := by
    decide +kernel
  obtain ⟨root, hroot, hall⟩ := Option.map_eq_some_iff.1 hchecked
  rw [Bool.and_eq_true, Bool.and_eq_true, decide_eq_true_iff, decide_eq_true_iff] at hall
  obtain ⟨⟨htidy, hbodies⟩, hfails⟩ := hall
  refine ⟨root, hroot, htidy, hbodies, fun s hs => ?_⟩
  rw [hs] at hfails
  cases hfails

end Signature

end Fingerprint
