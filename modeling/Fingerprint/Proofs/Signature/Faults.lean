import Fingerprint.Proofs.Tree.Nodes
import Fingerprint.Signature.Basic
import Fingerprint.Tree.Rows
/-!
# What can go wrong in an extraction

Apart from functions without a body, an extraction can only stumble over the quotes of a string:
its content is cut out one byte in from both ends, and where the closing quote is missing the last
byte can be a part of a character.  Each function of the library is shown to pass on no other fault
than these, found at a node of the tree.
-/

namespace Fingerprint

namespace Text

/-- Whether the first and the last character, if there is any, take one byte each. -/
def isQuoted (text : String) : Bool :=
  text.toList.head?.all (·.utf8Size == 1) && text.toList.getLast?.all (·.utf8Size == 1)

theorem isSome_unquote? (text : String) : (unquote? text).isSome = isQuoted text := by
  unfold unquote? isQuoted
  rcases htext : text.toList with _ | ⟨first, _ | ⟨c, rest⟩⟩
  · rfl
  · by_cases hsize : first.utf8Size = 1 <;> simp [hsize]
  · have hlast : (first :: c :: rest).getLast? = some (rest.getLastD c) := by
      rw [List.getLast?_cons_cons, List.getLast?_cons, List.getLastD_eq_getLast?]
    simp only [hlast, List.head?_cons, Option.all_some]
    by_cases hfirst : first.utf8Size = 1
    · by_cases hend : (rest.getLastD c).utf8Size = 1
      · simp only [hfirst, hend, and_self, if_true, Option.isSome_some, beq_self_eq_true,
          Bool.and_self]
      · simp only [hfirst, hend, and_false, if_false, Option.isSome_none, beq_self_eq_true,
          Bool.true_and]
        exact (beq_eq_false_iff_ne.2 hend).symm
    · simp [hfirst]

end Text

namespace Node

def isQuoted (n : Node) : Bool := Text.isQuoted n.text

/-- A fault that has its cause at or below a node. -/
def Causes (n : Node) : Fault → Prop
  | .malformed kind place missing =>
    ∃ f ∈ n.nodes, f.isFunction = true ∧ f.child? "body" = none ∧
      kind = f.kind ∧ place = f.place ∧ missing = "body"
  | .torn kind => kind = "string" ∧ ∃ s ∈ n.nodes, s.kind = "string" ∧ s.isQuoted = false

def Tears (n : Node) (fault : Fault) : Prop :=
  fault = .torn "string" ∧ ∃ s ∈ n.nodes, s.kind = "string" ∧ s.isQuoted = false

theorem Tears.causes {n : Node} {fault : Fault} (h : n.Tears fault) : n.Causes fault := by
  obtain ⟨rfl, hstring⟩ := h
  exact ⟨rfl, hstring⟩

theorem Tears.mono {m n : Node} {fault : Fault} (hm : m ∈ n.nodes) (h : m.Tears fault) :
    n.Tears fault := by
  obtain ⟨hfault, s, hs, hstring⟩ := h
  exact ⟨hfault, s, mem_nodes_trans hs n hm, hstring⟩

/-! ## Contents and names -/

theorem content_eq_ok_iff (n : Node) :
    (∃ content, n.content = .ok content) ↔ n.isQuoted = true := by
  rw [isQuoted, ← Text.isSome_unquote?, content]
  cases unquote? n.text <;> simp

theorem tears_of_content {n : Node} {fault : Fault} (hkind : n.kind = "string")
    (h : n.content = .error fault) : n.Tears fault := by
  have hquoted : n.isQuoted = false := by
    rw [← Bool.not_eq_true, ← content_eq_ok_iff]
    rintro ⟨content, hcontent⟩
    rw [hcontent] at h
    cases h
  rw [content] at h
  split at h
  · cases h
  · cases h
    exact ⟨congrArg Fault.torn hkind, n, n.mem_nodes_self, hkind, hquoted⟩

theorem tears_of_keyNameWithin {fault : Fault} (budget : Nat) :
    ∀ {key : Node}, keyNameWithin budget key = .error fault → key.Tears fault := by
  induction budget with
  | zero =>
    intro key h
    cases h
  | succ budget ih =>
    intro key h
    -- The name of a part is read with less budget.
    have hinner : ∀ {c : Node}, c ∈ key.bare.children → keyNameWithin budget c = .error fault →
        key.Tears fault := fun hc hfault =>
      ((ih hfault).mono (mem_nodes_of_mem_children hc)).mono key.bare_mem_nodes
    unfold keyNameWithin at h
    dsimp only at h
    split at h
    · cases h
    · split at h
      · rename_i hkind
        rw [map_eq_error] at h
        exact (tears_of_content hkind h).mono key.bare_mem_nodes
      · cases h
      · cases h
      · split at h
        · exact hinner (mem_children_of_mem_parts (List.mem_of_head? ‹_›)) h
        · cases h
      · split at h
        · exact hinner (mem_children_of_child? ‹_›) h
        · cases h
      · rw [bind_eq_error] at h
        rcases h with hleft | ⟨left, -, h⟩
        · split at hleft
          · exact hinner (mem_children_of_child? ‹_›) hleft
          · cases hleft
        · cases left with
          | none => cases h
          | some left =>
            dsimp only at h
            rw [bind_eq_error] at h
            rcases h with hright | ⟨right, -, h⟩
            · split at hright
              · exact hinner (mem_children_of_child? ‹_›) hright
              · cases hright
            · cases right <;> cases h
      · cases h

theorem tears_of_targetName {target : Node} {fault : Fault}
    (h : target.targetName = .error fault) : target.Tears fault := by
  have hchild : ∀ {c : Node}, c ∈ target.bare.children → c.keyName = .error fault →
      target.Tears fault := fun hc hfault =>
    ((tears_of_keyNameWithin _ hfault).mono (mem_nodes_of_mem_children hc)).mono
      target.bare_mem_nodes
  unfold targetName at h
  dsimp only at h
  split at h
  · rename_i key hkey
    split at hkey
    · exact hchild (mem_children_of_child? hkey) h
    · exact hchild (mem_children_of_child? hkey) h
    · rw [← Option.some.inj hkey] at h
      exact (tears_of_keyNameWithin _ h).mono target.bare_mem_nodes
  · cases h

theorem tears_of_localName {n function : Node} {target : Option Node} {fault : Fault}
    (hfunction : function ∈ n.nodes) (htarget : ∀ t, target = some t → t ∈ n.nodes)
    (h : function.localName target = .error fault) : n.Tears fault := by
  unfold localName at h
  rw [bind_eq_error] at h
  rcases h with hown | ⟨name, -, h⟩
  · unfold ownName at hown
    split at hown
    · rename_i key hkey
      have hmem := mem_nodes_of_mem_children (mem_children_of_child? hkey)
      exact ((tears_of_keyNameWithin _ hown).mono hmem).mono hfunction
    · cases hown
  · cases name with
    | some name => cases h
    | none =>
      cases target with
      | none => cases h
      | some t =>
        dsimp only at h
        rw [bind_eq_error] at h
        rcases h with htargetName | ⟨name, -, h⟩
        · exact (tears_of_targetName htargetName).mono (htarget t rfl)
        · cases h

/-! ## Tokens -/

theorem tears_of_directiveToken {n : Node} {fault : Fault} (hstring : n.isStringStatement = true)
    (h : n.directiveToken = .error fault) : n.Tears fault := by
  rw [isStringStatement, Bool.and_eq_true] at hstring
  unfold directiveToken at h
  split at h
  · rename_i only rest hparts
    rw [bind_eq_error] at h
    rcases h with hcontent | ⟨content, -, h⟩
    · have hkind : only.kind = "string" := by
        have hsingle := hstring.2
        rw [hparts] at hsingle
        split at hsingle
        · rename_i heq
          cases heq
          simpa using hsingle
        · cases hsingle
      have hmem : only ∈ n.parts := by
        rw [hparts]
        exact List.mem_cons_self ..
      exact (tears_of_content hkind hcontent).mono
        (mem_nodes_of_mem_children (mem_children_of_mem_parts hmem))
    · cases h
  · cases h

theorem exists_of_mapM_eq_error {ε α β : Type} {f : α → Except ε β} {e : ε} {items : List α}
    (h : items.mapM f = .error e) : ∃ a ∈ items, f a = .error e := by
  induction items with
  | nil => cases h
  | cons a rest ih =>
    rw [List.mapM_cons, bind_eq_error] at h
    rcases h with hhead | ⟨b, -, h⟩
    · exact ⟨a, List.mem_cons_self .., hhead⟩
    · rw [bind_eq_error] at h
      rcases h with htail | ⟨bs, -, h⟩
      · obtain ⟨c, hc, hfault⟩ := ih htail
        exact ⟨c, List.mem_cons_of_mem _ hc, hfault⟩
      · cases h

theorem tears_of_bodyTokens {mode : TokenMode} {budget : Nat} {isFunction : Bool} {body : Node}
    {fault : Fault} (h : bodyTokens mode budget isFunction body = .error fault) :
    body.Tears fault := by
  unfold bodyTokens at h
  split at h
  · rw [bind_eq_error] at h
    rcases h with hleading | ⟨leading, -, h⟩
    · obtain ⟨c, hc, hfault⟩ := exists_of_mapM_eq_error hleading
      have hc : c ∈ body.leadingStrings := by
        split at hc
        · exact hc
        · cases hc
      have hmem := mem_children_of_mem_parts ((List.takeWhile_sublist _).subset hc)
      have hstring := List.all_eq_true.1 List.all_takeWhile c hc
      exact (tears_of_directiveToken hstring hfault).mono (mem_nodes_of_mem_children hmem)
    · cases h
  · cases h

theorem error_of_tokens {options : TokenOptions} {n : Node} {fault : Fault}
    (h : n.tokens options = .error fault) :
    n.Tears fault ∨ n.child? "body" = none ∧ fault = .malformed n.kind n.place "body" := by
  rw [tokens, map_eq_error, functionTokens] at h
  split at h
  · rename_i hbody
    cases h
    exact .inr ⟨hbody, rfl⟩
  · rename_i body hbody
    rw [bind_eq_error] at h
    rcases h with hrest | ⟨rest, -, h⟩
    · exact .inl ((tears_of_bodyTokens hrest).mono
        (mem_nodes_of_mem_children (mem_children_of_child? hbody)))
    · cases h

theorem error_of_located {options : TokenOptions} {n function : Node} {target : Option Node}
    {fault : Fault} (hmem : function ∈ n.nodes) (htarget : ∀ t, target = some t → t ∈ n.nodes)
    (h : function.located options target = .error fault) :
    n.Tears fault ∨
      function.child? "body" = none ∧ fault = .malformed function.kind function.place "body" := by
  rw [located, bind_eq_error] at h
  rcases h with hname | ⟨name, -, h⟩
  · exact .inl (tears_of_localName hmem htarget hname)
  · rw [bind_eq_error] at h
    rcases h with htokens | ⟨tokens, -, h⟩
    · exact (error_of_tokens htokens).imp_left (Tears.mono hmem)
    · cases h

theorem causes_of_located {options : TokenOptions} {n function : Node} {target : Option Node}
    {fault : Fault} (hmem : function ∈ n.nodes) (hfunction : function.isFunction = true)
    (htarget : ∀ t, target = some t → t ∈ n.nodes)
    (h : function.located options target = .error fault) : n.Causes fault := by
  rcases error_of_located hmem htarget h with htears | ⟨hbody, rfl⟩
  · exact htears.causes
  · exact ⟨function, hmem, hfunction, hbody, rfl, rfl, rfl⟩

theorem isSome_body_of_located {options : TokenOptions} {function : Node} {target : Option Node}
    {found : Located} (h : function.located options target = .ok found) :
    (function.child? "body").isSome = true := by
  rw [located, bind_eq_ok] at h
  obtain ⟨name, -, h⟩ := h
  rw [bind_eq_ok] at h
  obtain ⟨tokens, htokens, -⟩ := h
  obtain ⟨items, hitems, -⟩ := map_eq_ok.1 htokens
  rw [functionTokens] at hitems
  cases hbody : function.child? "body" with
  | none =>
    rw [hbody] at hitems
    cases hitems
  | some body => rfl

theorem held?_mem_nodes {n function : Node} (h : n.held? = some function) :
    function ∈ n.nodes ∧ function.isFunction = true := by
  rw [held?, Option.filter_eq_some_iff] at h
  obtain ⟨hvalue, hfunction⟩ := h
  refine ⟨?_, hfunction⟩
  rw [Option.map_eq_some_iff] at hvalue
  obtain ⟨value, hvalue, rfl⟩ := hvalue
  rw [Option.bind_eq_some_iff] at hvalue
  obtain ⟨index, -, hindex⟩ := hvalue
  exact mem_nodes_trans value.bare_mem_nodes n
    (mem_nodes_of_mem_children (List.mem_of_getElem? hindex))

theorem target?_mem_nodes {n t : Node} (h : n.target? = some t) : t ∈ n.nodes := by
  rw [target?, Option.bind_eq_some_iff] at h
  obtain ⟨fields, -, hchild⟩ := h
  exact mem_nodes_of_mem_children (mem_children_of_child? hchild)

end Node

/-! ## Sites -/

namespace Site

theorem causes_of_locate {options : TokenOptions} {depth : Nat} {s : Site} {fault : Fault}
    (h : s.locate options depth = .error fault) : s.node.Causes fault := by
  unfold locate at h
  split at h
  · rename_i function hheld
    rw [map_eq_error] at h
    obtain ⟨hmem, hfunction⟩ := Node.held?_mem_nodes hheld
    exact Node.causes_of_located hmem hfunction (fun t => Node.target?_mem_nodes) h
  · split at h
    · rename_i hown
      rw [map_eq_error] at h
      rw [Bool.and_eq_true] at hown
      exact Node.causes_of_located s.node.mem_nodes_self hown.1 (fun t ht => by cases ht) h
    · cases h

theorem tears_of_literal {s : Site} {fault : Fault} (h : s.literal = .error fault) :
    s.node.Tears fault := by
  unfold literal at h
  split at h
  · cases h
  · unfold Node.literal at h
    split at h
    · rename_i hkind
      rw [map_eq_error] at h
      exact Node.tears_of_content hkind h
    iterate 7 cases h
    · split at h <;> cases h

theorem isQuoted_of_literal {s : Site} {signal : Signal Literal} (hkind : s.node.kind = "string")
    (h : s.literal = .ok signal) : s.node.isQuoted = true := by
  have hdirective : s.isDirective = false := by
    simp [isDirective, Node.isStringStatement, hkind]
  rw [literal, hdirective, if_neg (by simp), Node.literal] at h
  simp only [hkind] at h
  obtain ⟨content, hcontent, -⟩ := map_eq_ok.1 h
  exact (Node.content_eq_ok_iff s.node).1 ⟨content, hcontent⟩

end Site

namespace Signature

theorem causes_of_extract {options : TokenOptions} {root : Site} {fault : Fault}
    (h : extract options root = .error fault) :
    ∃ n ∈ root.node.descendants, n.Causes fault := by
  rw [extract, bind_eq_error] at h
  rcases h with hforest | ⟨forest, -, h⟩
  · obtain ⟨path, s, hs, hvisit⟩ := Site.exists_visit_of_walk_eq_error hforest
    exact ⟨s.node, hs, Site.causes_of_locate hvisit⟩
  · rw [bind_eq_error] at h
    rcases h with hliterals | ⟨literals, -, h⟩
    · rw [Site.literals, map_eq_error] at hliterals
      obtain ⟨path, s, hs, hvisit⟩ := Site.exists_visit_of_walk_eq_error hliterals
      exact ⟨s.node, hs, (Site.tears_of_literal hvisit).causes⟩
    · cases h

/-- **An extraction fails only over a function without a body or over torn quotes.**  If every
string below the root begins and ends with a character of one byte, there is a signature or the
answer is a function that has no body.  The condition matters: there is no signature when a string
without it is offered as a literal. -/
theorem extract_outcome (options : TokenOptions) (root : Site) :
    ((∀ n ∈ root.node.descendants, n.kind = "string" → n.isQuoted = true) →
      (∃ s, extract options root = .ok s) ∨
        ∃ f ∈ root.node.descendants, f.isFunction = true ∧ f.child? "body" = none ∧
          extract options root = .error (.malformed f.kind f.place "body")) ∧
    ∀ s ∈ root.offered Site.literal, s.node.kind = "string" → s.node.isQuoted = false →
      ∀ signature, extract options root ≠ .ok signature := by
  constructor
  · intro hquoted
    cases hextract : extract options root with
    | ok s => exact .inl ⟨s, rfl⟩
    | error fault =>
      obtain ⟨n, hn, hcauses⟩ := causes_of_extract hextract
      right
      cases fault with
      | malformed kind place missing =>
        obtain ⟨f, hf, hfunction, hbody, rfl, rfl, rfl⟩ := hcauses
        exact ⟨f, Node.mem_nodesOf_trans hf _ hn, hfunction, hbody, rfl⟩
      | torn kind =>
        obtain ⟨-, s, hs, hkind, htorn⟩ := hcauses
        rw [hquoted s (Node.mem_nodesOf_trans hs _ hn) hkind] at htorn
        cases htorn
  · intro s hs hkind htorn signature hextract
    rw [extract, bind_eq_ok] at hextract
    obtain ⟨forest, -, hextract⟩ := hextract
    rw [bind_eq_ok] at hextract
    obtain ⟨literals, hliterals, -⟩ := hextract
    obtain ⟨found, hfound, -⟩ := map_eq_ok.1 hliterals
    obtain ⟨signal, hsignal⟩ := Site.forall_offered_of_walk hfound s hs
    rw [Site.isQuoted_of_literal hkind hsignal] at htorn
    cases htorn

def stringCall (width : Nat) : List Row :=
  [⟨"program", true, none, 0, 8, 1⟩,
    ⟨"expression_statement", true, none, 0, 8, 2⟩,
    ⟨"call_expression", true, none, 0, 7, 2⟩,
    ⟨"identifier", true, some "function", 0, 1, 0⟩,
    ⟨"arguments", true, some "arguments", 1, 7, 3⟩,
    ⟨"(", false, none, 1, 2, 0⟩,
    ⟨"string", true, none, 2, 5 + width, 3⟩,
    ⟨"\"", false, none, 2, 3, 0⟩,
    ⟨"string_fragment", true, none, 3, 5, 0⟩,
    ⟨"\"", false, none, 5, 5 + width, 0⟩,
    ⟨")", false, none, 6, 7, 0⟩,
    ⟨";", false, none, 7, 8, 0⟩]

theorem extract_outcome_closingQuote :
    ∃ root, Node.ofRows? "f(\"é\");" (stringCall 1) = some root ∧
      (∀ n ∈ root.descendants, n.kind = "string" → n.isQuoted = true) ∧
      ((∃ s, extract {} ⟨root, []⟩ = .ok s) ∨
        ∃ f ∈ root.descendants, f.isFunction = true ∧ f.child? "body" = none ∧
          extract {} ⟨root, []⟩ = .error (.malformed f.kind f.place "body")) := by
  have hquoted : (Node.ofRows? "f(\"é\");" (stringCall 1)).map (fun root =>
      decide (∀ n ∈ root.descendants, n.kind = "string" → n.isQuoted = true)) = some true := by
    decide +kernel
  obtain ⟨root, hroot, hall⟩ := Option.map_eq_some_iff.1 hquoted
  have hall := of_decide_eq_true hall
  exact ⟨root, hroot, hall, (extract_outcome {} ⟨root, []⟩).1 hall⟩

/-- Where the next line goes on without the closing quote, an empty node stands for the quote, and
the string ends inside a character when its last byte is cut off. -/
theorem extract_missingQuote :
    ∃ root, Node.ofRows? "f(\"é\n);" (stringCall 0) = some root ∧
      extract {} ⟨root, []⟩ = .error (.torn "string") := by
  have htorn : (Node.ofRows? "f(\"é\n);" (stringCall 0)).map (fun root =>
      match extract {} ⟨root, []⟩ with
      | .error fault => fault == .torn "string"
      | .ok _ => false) = some true := by
    decide +kernel
  obtain ⟨root, hroot, hfault⟩ := Option.map_eq_some_iff.1 htorn
  refine ⟨root, hroot, ?_⟩
  split at hfault
  · rename_i fault hextract
    rw [hextract, eq_of_beq hfault]
  · cases hfault

end Signature

end Fingerprint
