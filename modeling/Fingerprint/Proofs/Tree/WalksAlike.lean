import Mathlib.Tactic.Common
import Fingerprint.Proofs.Arranged
import Fingerprint.Proofs.Tree.Alike
import Fingerprint.Proofs.Tree.Entries
import Fingerprint.Proofs.Tree.Offers
/-!
# Walks of trees that are alike

Two walks whose visitors answer the same for sites that correspond keep the same, in forests of one
shape.  The second walk may come past more sites, where its visitor has nothing to keep.  Where
siblings stand in another order, so do entries; which fault ends a walk is not told.
-/

namespace Fingerprint

/-! ## Forests of one shape -/

namespace Entry

variable {α : Type} {free : Prop}

/-- Two trees of entries that keep the same, wherever they were found; the order of siblings may be
free. -/
inductive Like (free : Prop) : Entry α → Entry α → Prop
  | mk {path path' : String} {data : α} {children mid children' : List (Entry α)}
    (h : List.Forall₂ (Like free) children mid) (hmid : Rearranged free mid children') :
    Like free ⟨path, data, children⟩ ⟨path', data, children'⟩

theorem like_mk {path path' : String} {data : α} {children children' : List (Entry α)}
    (h : Arranged free (Like free) children children') :
    Like free ⟨path, data, children⟩ ⟨path', data, children'⟩ := by
  obtain ⟨mid, hmid, hchildren⟩ := h
  exact .mk hmid hchildren

theorem toListAll_eq (forest : List (Entry α)) : toListAll forest = forest.flatMap toList := by
  induction forest with
  | nil => rfl
  | cons e rest ih => rw [toListAll, ih, List.flatMap_cons]

mutual

theorem Like.toList : ∀ {e e' : Entry α}, Like free e e' → Rearranged free e.toList e'.toList
  | ⟨_, data, children⟩, _, .mk hmid hchildren => by
    have hbelow := Like.toListAll hmid
    rw [toListAll_eq, toListAll_eq] at hbelow
    rw [Entry.toList, Entry.toList, toListAll_eq, toListAll_eq]
    exact .append (.refl [data]) (hbelow.trans (hchildren.flatMap Entry.toList))

theorem Like.toListAll : ∀ {forest forest' : List (Entry α)},
    List.Forall₂ (Like free) forest forest' →
      Rearranged free (toListAll forest) (toListAll forest')
  | [], _, .nil => .refl _
  | _ :: _, _, .cons he hrest => .append (Like.toList he) (Like.toListAll hrest)

end

theorem rearranged_toListAll {forest forest' : List (Entry α)}
    (h : Arranged free (Like free) forest forest') :
    Rearranged free (toListAll forest) (toListAll forest') := by
  rw [toListAll_eq, toListAll_eq]
  exact h.rearranged_flatMap fun _ _ => Like.toList

end Entry

/-! ## Sites that a walk offers -/

namespace Site

def partsFrom (s : Site) (index : Nat) : List Node → List Site
  | [] => []
  | c :: rest =>
    if c.isSignificant then s.child index c :: s.partsFrom (index + 1) rest
    else s.partsFrom (index + 1) rest

def parts (s : Site) : List Site := s.partsFrom 0 s.node.children

theorem map_node_partsFrom (s : Site) (index : Nat) (children : List Node) :
    (s.partsFrom index children).map node = children.filter Node.isSignificant := by
  induction children generalizing index with
  | nil => rfl
  | cons c rest ih =>
    rw [partsFrom, List.filter_cons]
    split
    · rw [List.map_cons, ih]
      rfl
    · exact ih (index + 1)

theorem map_node_parts (s : Site) : s.parts.map node = s.node.parts :=
  map_node_partsFrom s 0 s.node.children

theorem exists_of_mem_partsFrom {s x : Site} {index : Nat} {children : List Node}
    (h : x ∈ s.partsFrom index children) :
    ∃ i, ∃ c ∈ children.filter Node.isSignificant, x = s.child i c := by
  induction children generalizing index with
  | nil => cases h
  | cons c rest ih =>
    rw [partsFrom] at h
    split at h
    · rename_i hsig
      rw [List.filter_cons_of_pos hsig]
      rcases List.mem_cons.1 h with rfl | h
      · exact ⟨index, c, List.mem_cons_self .., rfl⟩
      · obtain ⟨i, d, hd, hx⟩ := ih h
        exact ⟨i, d, List.mem_cons_of_mem _ hd, hx⟩
    · rename_i hskip
      rw [List.filter_cons_of_neg hskip]
      exact ih h

theorem exists_of_mem_parts {s x : Site} (h : x ∈ s.parts) :
    ∃ i, ∃ c ∈ s.node.parts, x = s.child i c :=
  exists_of_mem_partsFrom h

theorem partsFrom_eq_nil {s : Site} {index : Nat} {children : List Node}
    (h : children.filter Node.isSignificant = []) : s.partsFrom index children = [] := by
  rw [← List.map_eq_nil_iff (f := node), map_node_partsFrom, h]

theorem exists_parts_eq_singleton {s : Site} {c : Node} (h : s.node.parts = [c]) :
    ∃ i, s.node.children.findIdx? Node.isSignificant = some i ∧ s.parts = [s.child i c] := by
  have hfrom : ∀ (children : List Node) (index : Nat),
      children.filter Node.isSignificant = [c] →
        ∃ i, children.findIdx? Node.isSignificant = some i ∧
          s.partsFrom index children = [s.child (index + i) c] := by
    intro children
    induction children with
    | nil =>
      intro index hparts
      cases hparts
    | cons d rest ih =>
      intro index hparts
      rw [List.findIdx?_cons, partsFrom]
      by_cases hsig : d.isSignificant = true
      · rw [List.filter_cons_of_pos hsig, List.cons.injEq] at hparts
        obtain ⟨rfl, hrest⟩ := hparts
        rw [if_pos hsig, if_pos hsig, partsFrom_eq_nil hrest]
        exact ⟨0, rfl, rfl⟩
      · rw [List.filter_cons_of_neg hsig] at hparts
        obtain ⟨i, hi, hrest⟩ := ih (index + 1) hparts
        rw [if_neg hsig, if_neg hsig, hi, hrest]
        exact ⟨i + 1, rfl, by rw [Nat.add_right_comm, Nat.add_assoc]⟩
  obtain ⟨i, hi, hparts⟩ := hfrom s.node.children 0 h
  exact ⟨i, hi, by rwa [Nat.zero_add] at hparts⟩

/-- The children at two places, where what stands before them and the children themselves are
related. -/
inductive Beside (r : Node → Node → Prop) (s s' : Site) : Site → Site → Prop
  | mk {front front' rest rest' : List Node} {c c' : Node}
    (hs : s.node.children = front ++ c :: rest) (hs' : s'.node.children = front' ++ c' :: rest')
    (hfront : Node.Interleaved r front front') (hc : r c c') :
    Beside r s s' (s.child front.length c) (s'.child front'.length c')

theorem partsFrom_of_isLoose {s : Site} {index : Nat} {c : Node} {rest : List Node}
    (hc : c.isLoose = true) : s.partsFrom index (c :: rest) = s.partsFrom (index + 1) rest := by
  rw [partsFrom, Node.isSignificant_of_isLoose hc]
  rfl

theorem forall₂_partsFrom {r : Node → Node → Prop} {s s' : Site}
    (hsig : ∀ {c c' : Node}, r c c' → c.isSignificant = c'.isSignificant)
    {front front' rest rest' : List Node} (hfront : Node.Interleaved r front front')
    (hrest : Node.Interleaved r rest rest') (hs : s.node.children = front ++ rest)
    (hs' : s'.node.children = front' ++ rest') :
    List.Forall₂ (Beside r s s') (s.partsFrom front.length rest)
      (s'.partsFrom front'.length rest') := by
  induction hrest generalizing front front' with
  | nil => exact .nil
  | @both c c' rest rest' hc _ ih =>
    have hlater := ih (hfront.append (.both hc .nil)) (by rw [hs]; simp) (by rw [hs']; simp)
    rw [List.length_append, List.length_append] at hlater
    rw [partsFrom, partsFrom, hsig hc]
    split
    · exact .cons (.mk hs hs' hfront hc) hlater
    · exact hlater
  | @left c rest rest' hc _ ih =>
    have hlater := ih (hfront.append (.left hc .nil)) (by rw [hs]; simp) (by rw [hs']; simp)
    rw [List.length_append, List.append_nil] at hlater
    rwa [partsFrom_of_isLoose hc]
  | @right c' rest rest' hc _ ih =>
    have hlater := ih (hfront.append (.right hc .nil)) (by rw [hs]; simp) (by rw [hs']; simp)
    rw [List.append_nil, List.length_append] at hlater
    rwa [partsFrom_of_isLoose hc]

theorem forall₂_parts {r : Node → Node → Prop} {s s' : Site}
    (hsig : ∀ {c c' : Node}, r c c' → c.isSignificant = c'.isSignificant)
    (h : Node.Interleaved r s.node.children s'.node.children) :
    List.Forall₂ (Beside r s s') s.parts s'.parts :=
  forall₂_partsFrom hsig .nil h rfl rfl

/-! ## Walks without faults -/

variable {α β : Type}

def gather (find : Site → Option (List β)) : List Site → Option (List β)
  | [] => some []
  | x :: rest => (find x).bind fun here => (gather find rest).map (here ++ ·)

/-- A relation of two found lists that several sites hand on, in any order if that is free. -/
structure Gathers (free : Prop) (l : List β → List β → Prop) : Prop where
  nil : l [] []
  append : ∀ {xs xs' ys ys' : List β}, l xs xs' → l ys ys' → l (xs ++ ys) (xs' ++ ys')
  moved : ∀ {xs ys zs : List β}, l xs ys → Rearranged free ys zs → l xs zs

theorem gathers_arranged {free : Prop} {s : β → β → Prop} : Gathers free (Arranged free s) where
  nil := .of_forall₂ .nil
  append := Arranged.append
  moved := fun ⟨mid, hmid, hys⟩ hzs => ⟨mid, hmid, hys.trans hzs⟩

section Gather

variable {free : Prop} {l : List β → List β → Prop} {find find' : Site → Option (List β)}

theorem gather_perm {xs xs' : List Site} (h : xs.Perm xs') :
    Option.Rel List.Perm (gather find xs) (gather find xs') := by
  induction h with
  | nil => exact .some (.refl _)
  | cons x _ ih =>
    refine rel_bind (rel_refl (s := (· = ·)) (fun _ => rfl) (find x)) ?_
    rintro here - rfl
    exact rel_map ih fun _ _ hlater => hlater.append_left here
  | swap x y rest =>
    simp only [gather]
    cases find x <;> cases find y <;> cases gather find rest <;> try exact .none
    simp only [Option.bind_some, Option.map_some, ← List.append_assoc]
    exact .some (List.perm_append_comm.append_right _)
  | trans _ _ ih ih' =>
    rcases rel_cases ih with ⟨hxs, hys⟩ | ⟨xs, ys, hxs, hys, hperm⟩
    · rwa [hxs, ← hys]
    · rw [hys] at ih'
      rcases rel_cases ih' with ⟨hnone, -⟩ | ⟨ys', zs, hsome, hzs, hperm'⟩
      · cases hnone
      · cases hsome
        rw [hxs, hzs]
        exact .some (hperm.trans hperm')

theorem gather_rearranged {xs xs' : List Site} (h : Rearranged free xs xs') :
    Option.Rel (Rearranged free) (gather find xs) (gather find xs') := by
  rcases h with rfl | ⟨hfree, h⟩
  · exact rel_refl .refl _
  · have hgather : Option.Rel List.Perm (gather find xs) (gather find xs') := gather_perm h
    rcases rel_cases hgather with ⟨hxs, hxs'⟩ | ⟨ys, ys', hxs, hxs', hperm⟩
    · rw [hxs, hxs']
      exact .none
    · rw [hxs, hxs']
      exact .some (.inr ⟨hfree, hperm⟩)

theorem gather_forall₂ (hl : Gathers free l) {q : Site → Site → Prop} {xs xs' : List Site}
    (hfind : ∀ x ∈ xs, ∀ x', q x x' → Option.Rel l (find x) (find' x'))
    (h : List.Forall₂ q xs xs') : Option.Rel l (gather find xs) (gather find' xs') := by
  induction h with
  | nil => exact .some hl.nil
  | @cons x x' xs xs' hx _ ih =>
    rw [List.forall_mem_cons] at hfind
    refine rel_bind (hfind.1 x' hx) fun _ _ hhere => ?_
    exact rel_map (ih hfind.2) fun _ _ hlater => hl.append hhere hlater

theorem gather_arranged (hl : Gathers free l) {q : Site → Site → Prop} {xs xs' : List Site}
    (hfind : ∀ x ∈ xs, ∀ x', q x x' → Option.Rel l (find x) (find' x'))
    (h : Arranged free q xs xs') : Option.Rel l (gather find xs) (gather find' xs') := by
  obtain ⟨mid, hmid, hxs'⟩ := h
  have hfound := gather_forall₂ hl hfind hmid
  have hmoved : Option.Rel (Rearranged free) (gather find' mid) (gather find' xs') :=
    gather_rearranged hxs'
  rcases rel_cases hfound with ⟨hnone, hnone'⟩ | ⟨found, found', hsome, hsome', hlike⟩
  · rw [hnone'] at hmoved
    rcases rel_cases hmoved with ⟨-, hnone''⟩ | ⟨_, _, h, _⟩
    · rw [hnone, hnone'']
      exact .none
    · cases h
  · rw [hsome'] at hmoved
    rcases rel_cases hmoved with ⟨h, -⟩ | ⟨_, moved, h, hsome'', hmoved⟩
    · cases h
    · cases h
      rw [hsome, hsome'']
      exact .some (hl.moved hlike hmoved)

end Gather

def pathBelow (path : String) (s : Site) : String :=
  match s.above with
  | [] => path
  | step :: _ => Node.childPath path step.index s.node

variable {ε : Type} {visit visit' : Site → Except ε (Signal α)}

def found? (visit : Site → Except ε (Signal α)) (path : String) (s : Site) :
    Option (List (Entry α)) :=
  (Node.walkAt (fun _ s => visit s) path s.above s.node).toOption

theorem toOption_walkAll (visit : Site → Except ε (Signal α)) (path : String) (s : Site)
    (index : Nat) (children : List Node) :
    (Node.walkAll (fun _ s => visit s) path s.above s.node index children).toOption =
      gather (fun x => found? visit (x.pathBelow path) x) (s.partsFrom index children) := by
  induction children generalizing index with
  | nil => rfl
  | cons c rest ih =>
    rw [Node.walkAll, partsFrom]
    split
    · rw [gather, ← ih, toOption_bind]
      refine congrArg (Option.bind _) (funext fun here => ?_)
      rw [toOption_bind]
      exact Option.map_eq_bind.symm
    · exact ih (index + 1)

def foundBelow? (visit : Site → Except ε (Signal α)) (path : String) (s : Site) :
    Option (List (Entry α)) :=
  gather (fun x => found? visit (x.pathBelow path) x) s.parts

theorem toOption_walk (visit : Site → Except ε (Signal α)) (root : Site) :
    (root.walk fun _ s => visit s).toOption = foundBelow? visit root.node.kind root :=
  toOption_walkAll visit root.node.kind root 0 root.node.children

theorem found?_eq (visit : Site → Except ε (Signal α)) (path : String) (s : Site) :
    found? visit path s =
      (visit s).toOption.bind fun signal =>
        (if signal.descend then foundBelow? visit path s else some []).map
          (signal.collect path) := by
  obtain ⟨⟨label, children⟩, above⟩ := s
  rw [found?, Node.walkAt, toOption_bind]
  refine congrArg (Option.bind _) (funext fun signal => ?_)
  split
  · rw [foundBelow?, parts, ← toOption_walkAll, toOption_bind]
    exact Option.map_eq_bind.symm
  · rfl

theorem arranged_collect {free : Prop} (signal : Signal α) {path path' : String}
    {inner inner' : List (Entry α)} (h : Arranged free (Entry.Like free) inner inner') :
    Arranged free (Entry.Like free) (signal.collect path inner) (signal.collect path' inner') := by
  obtain ⟨data, descend⟩ := signal
  cases data with
  | none => exact h
  | some data => exact .cons (Entry.like_mk h) (.of_forall₂ .nil)

theorem found?_of_pass {path : String} {s : Site} (hpass : (visit s).toOption = some .pass) :
    found? visit path s = foundBelow? visit path s := by
  rw [found?_eq, hpass, Option.bind_some]
  exact Option.map_id'

theorem foundBelow?_of_parts_eq {path : String} {s y : Site} (hparts : s.parts = [y]) :
    foundBelow? visit path s = found? visit (y.pathBelow path) y := by
  rw [foundBelow?, hparts, gather]
  cases hfound : found? visit (y.pathBelow path) y with
  | none => rfl
  | some found => simp [gather]

theorem found?_of_stop {path : String} {s : Site} {signal : Signal α}
    (hvisit : visit s = .ok signal)
    (hstop : signal.descend = false) : found? visit path s = some (signal.collect path []) := by
  rw [found?_eq, hvisit]
  simp [Except.toOption, hstop]

/-- Sites that are related, where a visitor may pass the second by on the way to its only part. -/
def Past (visit : Site → Except ε (Signal α)) (q : Site → Site → Prop) (x x' : Site) : Prop :=
  q x x' ∨ ∃ y', x'.parts = [y'] ∧ (visit x').toOption = some .pass ∧ q x y'

section Walks

variable {free : Prop} {l : List (Entry α) → List (Entry α) → Prop} (hl : Gathers free l)
  (hcollect : ∀ (signal : Signal α) {path path' : String} {inner inner' : List (Entry α)},
    l inner inner' → l (signal.collect path inner) (signal.collect path' inner'))
  {q : Site → Site → Prop}
  (hstep : ∀ {s s' : Site}, q s s' → Descends (visit s) →
    Arranged free (Past visit' q) s.parts s'.parts)
  (hvisit : ∀ {s s' : Site}, q s s' → (visit s).toOption = (visit' s').toOption ∨
    ((Arranged free (Past visit' q) s.parts s'.parts → ∀ path path' : String,
        Option.Rel l (foundBelow? visit path s) (foundBelow? visit' path' s')) →
      ∀ path path' : String, Option.Rel l (found? visit path s) (found? visit' path' s')))
include hl hcollect hstep hvisit

theorem found?_alike (n : Node) : ∀ {above : List Step} {s' : Site} {path path' : String},
    Past visit' q ⟨n, above⟩ s' →
      Option.Rel l (found? visit path ⟨n, above⟩) (found? visit' path' s') := by
  induction n using Node.induction with
  | node n ih =>
    have hbelow : ∀ {above : List Step} {s' : Site},
        Arranged free (Past visit' q) (Site.parts ⟨n, above⟩) s'.parts → ∀ path path' : String,
          Option.Rel l (foundBelow? visit path ⟨n, above⟩) (foundBelow? visit' path' s') := by
      intro above s' hparts path path'
      refine gather_arranged hl (fun x hx x' hxx' => ?_) hparts
      obtain ⟨i, c, hc, rfl⟩ := exists_of_mem_parts hx
      exact ih c (Node.mem_children_of_mem_parts hc) hxx'
    have hrelated : ∀ {above : List Step} {s' : Site} {path path' : String}, q ⟨n, above⟩ s' →
        Option.Rel l (found? visit path ⟨n, above⟩) (found? visit' path' s') := by
      intro above s' path path' hs
      rcases hvisit hs with hsame | hfound
      · rw [found?_eq, found?_eq, ← hsame]
        cases hanswer : visit ⟨n, above⟩ with
        | error fault => exact .none
        | ok signal =>
          refine rel_map ?_ fun _ _ hinner => hcollect signal hinner
          split
          · rename_i hdescend
            exact hbelow (hstep hs ⟨signal, hanswer, hdescend⟩) path path'
          · exact .some hl.nil
      · exact hfound hbelow path path'
    rintro above s' path path' (hs | ⟨y', hparts, hpass, hs⟩)
    · exact hrelated hs
    · rw [found?_of_pass hpass, foundBelow?_of_parts_eq hparts]
      exact hrelated hs

/-- What walks find is related if the sites that they offer first are, or both meet a fault.  Where
visitors answer differently, what is found from there on has to be related all the same, given that
what is found below is if the parts are. -/
theorem walk_related {root root' : Site}
    (hroot : Arranged free (Past visit' q) root.parts root'.parts) :
    Option.Rel l (root.walk fun _ s => visit s).toOption
      (root'.walk fun _ s => visit' s).toOption := by
  rw [toOption_walk, toOption_walk]
  exact gather_arranged hl
    (fun x _ x' hxx' => found?_alike hl hcollect hstep hvisit x.node hxx') hroot

end Walks

/-- Walks below roots that correspond find the same in the same shape, or both meet a fault. -/
theorem walk_alike {free : Prop} {q : Site → Site → Prop}
    (hstep : ∀ {s s' : Site}, q s s' → Arranged free (Past visit' q) s.parts s'.parts)
    (hvisit : ∀ {s s' : Site}, q s s' → (visit s).toOption = (visit' s').toOption)
    {root root' : Site} (hroot : Arranged free (Past visit' q) root.parts root'.parts) :
    Option.Rel (Arranged free (Entry.Like free)) (root.walk fun _ s => visit s).toOption
      (root'.walk fun _ s => visit' s).toOption :=
  walk_related gathers_arranged (fun signal _ _ _ _ hinner => arranged_collect signal hinner)
    (fun hs _ => hstep hs) (fun hs => .inl (hvisit hs)) hroot

/-- Walks below roots that correspond both meet a fault, or none of them does.  Where visitors answer
differently, the first does not go on and the second has nothing to say, and then there must be no
fault below the first. -/
theorem isSome_walk_eq {free : Prop} {q : Site → Site → Prop}
    (hstep : ∀ {s s' : Site}, q s s' → Arranged free (Past visit' q) s.parts s'.parts)
    (hvisit : ∀ {s s' : Site}, q s s' → (visit s).toOption = (visit' s').toOption ∨
      (∃ signal, visit s = .ok signal ∧ signal.descend = false) ∧
        (visit' s').toOption = some .pass ∧
        (s.walk fun _ s => visit s).toOption.isSome = true)
    {root root' : Site} (hroot : Arranged free (Past visit' q) root.parts root'.parts) :
    (root.walk fun _ s => visit s).toOption.isSome =
      (root'.walk fun _ s => visit' s).toOption.isSome := by
  have hgathers : Gathers free fun _ _ : List (Entry α) => True :=
    ⟨trivial, fun _ _ => trivial, fun _ _ => trivial⟩
  have hrel : ∀ {found found' : Option (List (Entry α))}, found.isSome = found'.isSome →
      Option.Rel (fun _ _ => True) found found' := by
    rintro (_ | found) (_ | found') h
    · exact .none
    · cases h
    · cases h
    · exact .some trivial
  refine isSome_eq_of_rel (walk_related hgathers (fun _ _ _ _ _ _ => trivial)
    (fun hs _ => hstep hs) (fun {s s'} hs => (hvisit hs).imp_right ?_) hroot)
  rintro ⟨⟨signal, hsignal, hstop⟩, hpass, hwalk⟩ hbelow path path'
  rw [toOption_walk] at hwalk
  rw [found?_of_stop hsignal hstop, found?_of_pass hpass]
  exact hrel (hwalk.symm.trans (isSome_eq_of_rel (hbelow (hstep hs) s.node.kind path')))

end Site

end Fingerprint
