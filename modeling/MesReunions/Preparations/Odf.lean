import MesReunions.Base.Str
import Mathlib.Data.List.Flatten
import Mathlib.Data.List.Nodup
import Mathlib.Data.List.Pairwise

/-!
# The text of an ODF document

`_extract_odf` of `doc_extractor.py`: the paragraphs of a document, then its headings, then its text
boxes. A document is a tree whose leaves are pieces of text; what `odfpy` does is `chunk`, the text
of an element, and `getElementsByType`, the elements of one type in the order of the document.

* `extractOdf` — the text, and `partNodes`, the elements whose texts are put together.
* `passages` — the pieces of headings and paragraphs, in the order of the document.
* `Faithful` — each of them comes out once, in this order.
* **`extractOdf_iff`** — exactly when no heading and no paragraph holds another one, no paragraph
  follows a heading, and every text box with such pieces has a text that was taken already.
-/

namespace MesReunions.Odf

open Str

inductive Kind where
  | p
  | h
  | textBox
  | other
  deriving DecidableEq

/-- A node: a piece of text, or an element with its children. -/
inductive Node (α : Type) where
  | leaf (a : α)
  | elem (kind : Kind) (children : List (Node α))

variable {α : Type}

mutual

/-- The pieces of a node, in order. -/
def leaves : Node α → List α
  | .leaf a => [a]
  | .elem _ children => leavesOf children

def leavesOf : List (Node α) → List α
  | [] => []
  | c :: children => leaves c ++ leavesOf children

end

mutual

/-- The elements of a node, itself included, in the order of the document. -/
def elements : Node α → List (Node α)
  | .leaf _ => []
  | .elem kind children => .elem kind children :: elementsOf children

def elementsOf : List (Node α) → List (Node α)
  | [] => []
  | c :: children => elements c ++ elementsOf children

end

def ofKind (k : Kind) : Node α → Bool
  | .leaf _ => false
  | .elem kind _ => kind = k

/-- `doc.getElementsByType(k)` -/
def getElementsByType (doc : Node α) (k : Kind) : List (Node α) := (elements doc).filter (ofKind k)

section Model

variable (text : α → Str)

/-- `teletype.extractText(node)` -/
def chunk (node : Node α) : Str := (leaves node).flatMap text

/-- The loop over the text boxes: those whose text is not among the parts yet. -/
def newBoxes : (parts : List Str) → List (Node α) → List (Node α)
  | _, [] => []
  | parts, box :: boxes =>
      if chunk text box ≠ [] ∧ chunk text box ∉ parts then
        box :: newBoxes (parts ++ [chunk text box]) boxes
      else newBoxes parts boxes

/-- The elements of a type that have a text. -/
def withText (doc : Node α) (k : Kind) : List (Node α) :=
  (getElementsByType doc k).filter fun node => chunk text node ≠ []

/-- The elements whose texts are the parts. -/
def partNodes (doc : Node α) : List (Node α) :=
  let nodes := withText text doc .p ++ withText text doc .h
  nodes ++ newBoxes text (nodes.map (chunk text)) (getElementsByType doc .textBox)

/-- `_extract_odf(content)` -/
def extractOdf (doc : Node α) : Str :=
  ['\n'].intercalate ((partNodes text doc).map (chunk text))

/-! ## Headings and paragraphs -/

def isPassage (node : Node α) : Bool := ofKind .p node || ofKind .h node

/-- A piece that is not blank. -/
def solid (a : α) : Bool := strip (text a) ≠ []

def solidLeaves (node : Node α) : List α := (leaves node).filter (solid text)

mutual

/-- The pieces of headings and paragraphs, in the order of the document. -/
def passages : Node α → List α
  | .leaf _ => []
  | .elem kind children =>
      if isPassage (.elem kind children) then (leavesOf children).filter (solid text)
      else passagesOf children

def passagesOf : List (Node α) → List α
  | [] => []
  | c :: children => passages c ++ passagesOf children

end

/-- **Each piece** of a heading or a paragraph comes out once, and in order. -/
def Faithful [DecidableEq α] (doc : Node α) : Prop :=
  ((partNodes text doc).flatMap leaves).filter (· ∈ passages text doc) = passages text doc

/-- The headings and the paragraphs, in the order of the document. -/
def passageNodes (doc : Node α) : List (Node α) := (elements doc).filter isPassage

/-- Those inside of an element. -/
def inner : Node α → List (Node α)
  | .leaf _ => []
  | .elem _ children => (elementsOf children).filter isPassage

/-- **Documents that come out in order.** -/
structure Expected (doc : Node α) : Prop where
  /-- No heading and no paragraph with a text stands inside another one. -/
  flat : ∀ node ∈ passageNodes doc, ∀ nested ∈ inner node, solidLeaves text nested = []
  /-- No paragraph with a text follows a heading with a text. -/
  order : ((passageNodes doc).filter fun node => solidLeaves text node ≠ []).Pairwise
    fun before after => ofKind .p before = true ∨ ofKind .p after = false
  /-- A text box with such a piece has the text of a paragraph, a heading or a box before it. -/
  boxes : ∀ pre box post, getElementsByType doc .textBox = pre ++ box :: post →
    (∃ a ∈ leaves box, a ∈ passages text doc) →
      chunk text box ∈ (withText text doc .p ++ withText text doc .h ++ pre).map (chunk text)

end Model

/-! ## Elements -/

mutual

theorem elements_sublist : ∀ (doc : Node α) {node : Node α}, node ∈ elements doc →
    (leaves node).Sublist (leaves doc) ∧ (elements node).Sublist (elements doc)
  | .leaf _, _, h => absurd h List.not_mem_nil
  | .elem kind children, node, h => by
      rcases List.mem_cons.mp h with rfl | h
      · exact ⟨List.Sublist.refl _, List.Sublist.refl _⟩
      · obtain ⟨hleaves, helements⟩ := elementsOf_sublist children h
        exact ⟨hleaves, helements.trans (List.sublist_cons_self _ _)⟩

theorem elementsOf_sublist : ∀ (children : List (Node α)) {node : Node α},
    node ∈ elementsOf children →
    (leaves node).Sublist (leavesOf children) ∧ (elements node).Sublist (elementsOf children)
  | [], _, h => absurd h List.not_mem_nil
  | c :: children, node, h => by
      rcases List.mem_append.mp h with h | h
      · obtain ⟨hleaves, helements⟩ := elements_sublist c h
        exact ⟨hleaves.trans (List.sublist_append_left _ _),
          helements.trans (List.sublist_append_left _ _)⟩
      · obtain ⟨hleaves, helements⟩ := elementsOf_sublist children h
        exact ⟨hleaves.trans (List.sublist_append_right _ _),
          helements.trans (List.sublist_append_right _ _)⟩

end

variable {text : α → Str}

/-- A heading or a paragraph, and those inside of it, among all of them. -/
theorem inner_sublist {doc node : Node α} (h : node ∈ passageNodes doc) :
    (node :: inner node).Sublist (passageNodes doc) := by
  obtain ⟨hmem, hpassage⟩ := List.mem_filter.mp h
  have hsub := ((elements_sublist doc hmem).2).filter isPassage
  cases node with
  | leaf a => cases hpassage
  | elem kind children =>
      rw [elements, List.filter_cons_of_pos hpassage] at hsub
      exact hsub

mutual

theorem passages_sublist : ∀ doc : Node α, (passages text doc).Sublist (leaves doc)
  | .leaf _ => List.nil_sublist _
  | .elem kind children => by
      rw [passages, leaves]
      split
      · exact List.filter_sublist
      · exact passagesOf_sublist children

theorem passagesOf_sublist : ∀ children : List (Node α),
    (passagesOf text children).Sublist (leavesOf children)
  | [] => List.Sublist.refl _
  | c :: children => (passages_sublist c).append (passagesOf_sublist children)

end

mutual

/-- The pieces of the passages are those of the headings and the paragraphs. -/
theorem mem_passages : ∀ (doc : Node α) {a : α},
    a ∈ passages text doc ↔ ∃ node ∈ passageNodes doc, a ∈ solidLeaves text node
  | .leaf _, a => ⟨nofun, nofun⟩
  | .elem kind children, a => by
      have hchildren := mem_passagesOf children (a := a)
      by_cases hpassage : isPassage (.elem kind children) = true
      · rw [passages, if_pos hpassage, passageNodes, elements, List.filter_cons_of_pos hpassage]
        constructor
        · exact fun ha => ⟨_, List.mem_cons_self, ha⟩
        · rintro ⟨node, hnode, ha⟩
          rcases List.mem_cons.mp hnode with rfl | hnode
          · exact ha
          · exact ((elementsOf_sublist children (List.mem_filter.mp hnode).1).1.filter _).subset ha
      · rw [passages, if_neg hpassage, passageNodes, elements, List.filter_cons_of_neg hpassage]
        exact hchildren

theorem mem_passagesOf : ∀ (children : List (Node α)) {a : α},
    a ∈ passagesOf text children ↔
      ∃ node ∈ (elementsOf children).filter isPassage, a ∈ solidLeaves text node
  | [], _ => ⟨nofun, nofun⟩
  | c :: children, a => by
      rw [passagesOf, elementsOf, List.filter_append, List.mem_append, mem_passages c,
        mem_passagesOf children]
      simp only [passageNodes, List.mem_append]
      constructor
      · rintro (⟨node, hnode, ha⟩ | ⟨node, hnode, ha⟩)
        · exact ⟨node, Or.inl hnode, ha⟩
        · exact ⟨node, Or.inr hnode, ha⟩
      · rintro ⟨node, hnode | hnode, ha⟩
        · exact Or.inl ⟨node, hnode, ha⟩
        · exact Or.inr ⟨node, hnode, ha⟩

end

mutual

/-- **Without nesting**, the passages are the pieces of one node after the other. -/
theorem flatMap_passageNodes : ∀ doc : Node α,
    (∀ node ∈ passageNodes doc, ∀ nested ∈ inner node, solidLeaves text nested = []) →
    (passageNodes doc).flatMap (solidLeaves text) = passages text doc
  | .leaf _, _ => rfl
  | .elem kind children, h => by
      by_cases hpassage : isPassage (.elem kind children) = true
      · have hself : passageNodes (.elem kind children) =
            .elem kind children :: inner (.elem kind children) := by
          rw [passageNodes, elements, List.filter_cons_of_pos hpassage, inner]
        have hnested : (inner (.elem kind children)).flatMap (solidLeaves text) = [] :=
          List.flatMap_eq_nil_iff.mpr (h _ (by rw [hself]; exact List.mem_cons_self))
        rw [hself, List.flatMap_cons, hnested, List.append_nil, passages, if_pos hpassage]
        rfl
      · have hself : passageNodes (.elem kind children) =
            (elementsOf children).filter isPassage := by
          rw [passageNodes, elements, List.filter_cons_of_neg hpassage]
        rw [hself] at h ⊢
        rw [passages, if_neg hpassage]
        exact flatMap_passageNodesOf children h

theorem flatMap_passageNodesOf : ∀ children : List (Node α),
    (∀ node ∈ (elementsOf children).filter isPassage, ∀ nested ∈ inner node,
      solidLeaves text nested = []) →
    ((elementsOf children).filter isPassage).flatMap (solidLeaves text) = passagesOf text children
  | [], _ => rfl
  | c :: children, h => by
      rw [elementsOf, List.filter_append] at h ⊢
      rw [List.flatMap_append, passagesOf,
        flatMap_passageNodesOf children fun node hnode =>
          h node (List.mem_append_right _ hnode)]
      exact congrArg (· ++ _) (flatMap_passageNodes c fun node hnode =>
        h node (List.mem_append_left _ hnode))

end

/-! ## Two lists made of one -/

section Parts

variable {ν : Type} {f : ν → List α} {p : ν → Bool}

theorem flatMap_filter_of_nil {l : List ν} (h : ∀ x ∈ l, p x = false → f x = []) :
    (l.filter p).flatMap f = l.flatMap f := by
  induction l with
  | nil => rfl
  | cons x l ih =>
      have hrest := ih fun y hy => h y (List.mem_cons_of_mem _ hy)
      cases hx : p x with
      | true => rw [List.filter_cons_of_pos hx, List.flatMap_cons, List.flatMap_cons, hrest]
      | false =>
          rw [List.filter_cons_of_neg (by rw [hx]; exact Bool.false_ne_true), hrest,
            List.flatMap_cons, h x List.mem_cons_self hx, List.nil_append]

/-- **Putting the elements of one kind first** changes nothing exactly when they come first. -/
theorem flatMap_parts_iff {l : List ν} (hnodup : (l.flatMap f).Nodup) :
    (l.filter p).flatMap f ++ (l.filter fun x => !p x).flatMap f = l.flatMap f ↔
      (l.filter fun x => decide (f x ≠ [])).Pairwise fun x y => p x = true ∨ p y = false := by
  induction l with
  | nil => exact iff_of_true rfl List.Pairwise.nil
  | cons x l ih =>
      rw [List.flatMap_cons] at hnodup ⊢
      have ih := ih (List.nodup_append.mp hnodup).2.1
      by_cases hempty : f x = []
      · rw [List.filter_cons_of_neg (p := fun x => decide (f x ≠ [])) (by simpa using hempty), ← ih,
          hempty, List.nil_append]
        cases hx : p x with
        | true => simp [hx, hempty]
        | false => simp [hx, hempty]
      rw [List.filter_cons_of_pos (p := fun x => decide (f x ≠ [])) (by simpa using hempty),
        List.pairwise_cons, ← ih]
      cases hx : p x with
      | true => simp [hx]
      | false =>
          rw [List.filter_cons_of_neg (by rw [hx]; exact Bool.false_ne_true),
            List.filter_cons_of_pos (by rw [hx]; rfl), List.flatMap_cons]
          constructor
          · intro h
            have hnone : (l.filter p).flatMap f = [] := by
              by_contra hsome
              obtain ⟨a, rest, hfirst⟩ := List.exists_cons_of_ne_nil hsome
              obtain ⟨b, rest', hx'⟩ := List.exists_cons_of_ne_nil hempty
              rw [hfirst, hx', List.cons_append, List.cons_append] at h
              have hab : a = b := (List.cons.inj h).1
              obtain ⟨y, hy, hay⟩ := List.mem_flatMap.mp (hfirst ▸ List.mem_cons_self :
                a ∈ (l.filter p).flatMap f)
              have hin : a ∈ l.flatMap f :=
                List.mem_flatMap.mpr ⟨y, (List.mem_filter.mp hy).1, hay⟩
              have hinx : a ∈ f x := by rw [hx', hab]; exact List.mem_cons_self
              exact (List.nodup_append.mp hnodup).2.2 a hinx a hin rfl
            rw [hnone, List.nil_append] at h ⊢
            refine ⟨fun y hy => Or.inr ?_, List.append_cancel_left h⟩
            obtain ⟨hmem, hsome⟩ := List.mem_filter.mp hy
            by_contra hpy
            have hy' : y ∈ l.filter p :=
              List.mem_filter.mpr ⟨hmem, by simpa using hpy⟩
            exact of_decide_eq_true hsome (List.flatMap_eq_nil_iff.mp hnone y hy')
          · rintro ⟨hlast, h⟩
            have hnone : (l.filter p).flatMap f = [] := by
              refine List.flatMap_eq_nil_iff.mpr fun y hy => ?_
              obtain ⟨hmem, hpy⟩ := List.mem_filter.mp hy
              by_contra hsome
              rcases hlast y (List.mem_filter.mpr ⟨hmem, decide_eq_true hsome⟩) with hfalse | hfalse
              · cases hfalse
              · rw [hpy] at hfalse
                cases hfalse
            rw [hnone, List.nil_append] at h ⊢
            rw [h]

end Parts

/-! ## The text boxes -/

/-- A text box is kept when its text is new. -/
theorem forall_newBoxes {q : Node α → Prop} {parts : List Str} {boxes : List (Node α)} :
    (∀ box ∈ newBoxes text parts boxes, q box) ↔
      ∀ pre box post, boxes = pre ++ box :: post → chunk text box ≠ [] →
        chunk text box ∉ parts → chunk text box ∉ pre.map (chunk text) → q box := by
  induction boxes generalizing parts with
  | nil =>
      refine iff_of_true nofun fun pre box post heq => ?_
      exact absurd heq.symm (List.append_ne_nil_of_right_ne_nil pre (List.cons_ne_nil _ _))
  | cons first boxes ih =>
      rw [newBoxes]
      split
      · rename_i hnew
        rw [List.forall_mem_cons, ih]
        constructor
        · rintro ⟨hfirst, hrest⟩ pre box post heq hne hparts hpre
          cases pre with
          | nil =>
              obtain ⟨rfl, -⟩ := List.cons.inj heq
              exact hfirst
          | cons b pre =>
              obtain ⟨rfl, htail⟩ := List.cons.inj heq
              rw [List.map_cons, List.mem_cons, not_or] at hpre
              refine hrest pre box post htail hne ?_ hpre.2
              rw [List.mem_append, List.mem_singleton, not_or]
              exact ⟨hparts, hpre.1⟩
        · refine fun h => ⟨h [] first boxes rfl hnew.1 hnew.2 List.not_mem_nil, ?_⟩
          intro pre box post heq hne hparts hpre
          rw [List.mem_append, List.mem_singleton, not_or] at hparts
          refine h (first :: pre) box post (by rw [heq]; rfl) hne hparts.1 ?_
          rw [List.map_cons, List.mem_cons, not_or]
          exact ⟨hparts.2, hpre⟩
      · rename_i hold
        rw [ih]
        constructor
        · intro h pre box post heq hne hparts hpre
          cases pre with
          | nil =>
              obtain ⟨rfl, -⟩ := List.cons.inj heq
              exact absurd ⟨hne, hparts⟩ hold
          | cons b pre =>
              obtain ⟨rfl, htail⟩ := List.cons.inj heq
              rw [List.map_cons, List.mem_cons, not_or] at hpre
              exact h pre box post htail hne hparts hpre.2
        · intro h pre box post heq hne hparts hpre
          refine h (first :: pre) box post (by rw [heq]; rfl) hne hparts ?_
          rw [List.map_cons, List.mem_cons, not_or]
          refine ⟨fun hsame => hold ?_, hpre⟩
          rw [← hsame]
          exact ⟨hne, hparts⟩

/-! ## The parts -/

theorem passageNodes_filter_p (doc : Node α) :
    (passageNodes doc).filter (ofKind .p) = getElementsByType doc .p := by
  rw [passageNodes, List.filter_filter, getElementsByType]
  refine List.filter_congr fun node _ => ?_
  rw [isPassage]
  cases ofKind .p node <;> rfl

theorem passageNodes_filter_h (doc : Node α) :
    ((passageNodes doc).filter fun node => !ofKind .p node) = getElementsByType doc .h := by
  rw [passageNodes, List.filter_filter, getElementsByType]
  refine List.filter_congr fun node _ => ?_
  cases node with
  | leaf a => rfl
  | elem kind children => cases kind <;> rfl

theorem passage_of_kind {doc node : Node α} {k : Kind} (hk : k = .p ∨ k = .h)
    (h : node ∈ getElementsByType doc k) : node ∈ passageNodes doc := by
  obtain ⟨hmem, hkind⟩ := List.mem_filter.mp h
  refine List.mem_filter.mpr ⟨hmem, ?_⟩
  rw [isPassage, Bool.or_eq_true]
  rcases hk with rfl | rfl
  · exact Or.inl hkind
  · exact Or.inr hkind

theorem solid_of_mem_passages {doc : Node α} {a : α} (h : a ∈ passages text doc) :
    solid text a = true := by
  obtain ⟨node, -, ha⟩ := (mem_passages doc).mp h
  exact (List.mem_filter.mp ha).2

theorem solidLeaves_of_chunk {node : Node α} (h : chunk text node = []) :
    solidLeaves text node = [] := by
  refine List.filter_eq_nil_iff.mpr fun a ha => ?_
  rw [solid, List.flatMap_eq_nil_iff.mp h a ha]
  simp

/-- The passages that come out of the elements of one type. -/
theorem filter_withText [DecidableEq α] {doc : Node α} {k : Kind} (hk : k = .p ∨ k = .h) :
    ((withText text doc k).flatMap leaves).filter (· ∈ passages text doc) =
      (getElementsByType doc k).flatMap (solidLeaves text) := by
  have hnode : ∀ node ∈ getElementsByType doc k,
      (leaves node).filter (· ∈ passages text doc) = solidLeaves text node := by
    intro node hnode
    refine List.filter_congr fun a ha => ?_
    by_cases hsolid : solid text a = true
    · rw [hsolid]
      exact decide_eq_true ((mem_passages doc).mpr
        ⟨node, passage_of_kind hk hnode, List.mem_filter.mpr ⟨ha, hsolid⟩⟩)
    · rw [Bool.not_eq_true] at hsolid
      rw [hsolid]
      refine decide_eq_false fun h => ?_
      rw [solid_of_mem_passages h] at hsolid
      cases hsolid
  rw [List.filter_flatMap, withText, flatMap_filter_of_nil]
  · exact List.flatMap_congr fun node hmem => hnode node hmem
  · intro node hmem hempty
    rw [hnode node hmem]
    exact solidLeaves_of_chunk (by simpa using hempty)

/-! ## What comes out -/

/-- A document, whose pieces of text are different nodes. -/
structure Document (α : Type) where
  root : Node α
  distinct : (leaves root).Nodup

section Laws

variable [DecidableEq α] {doc : Node α}

/-- The passages that come out of the text boxes. -/
def boxPassages (text : α → Str) (doc : Node α) : List α :=
  ((newBoxes text ((withText text doc .p ++ withText text doc .h).map (chunk text))
    (getElementsByType doc .textBox)).flatMap leaves).filter (· ∈ passages text doc)

/-- The pieces of the paragraphs, then those of the headings. -/
theorem filter_partNodes :
    ((partNodes text doc).flatMap leaves).filter (· ∈ passages text doc) =
      ((passageNodes doc).filter (ofKind .p)).flatMap (solidLeaves text) ++
        ((passageNodes doc).filter fun node => !ofKind .p node).flatMap (solidLeaves text) ++
        boxPassages text doc := by
  rw [partNodes, List.flatMap_append, List.flatMap_append, List.filter_append, List.filter_append,
    filter_withText (Or.inl rfl), filter_withText (Or.inr rfl), passageNodes_filter_p,
    passageNodes_filter_h]
  rfl

omit [DecidableEq α] in
theorem parts_perm :
    List.Perm (((passageNodes doc).filter (ofKind .p)).flatMap (solidLeaves text) ++
        ((passageNodes doc).filter fun node => !ofKind .p node).flatMap (solidLeaves text))
      ((passageNodes doc).flatMap (solidLeaves text)) := by
  rw [← List.flatMap_append]
  exact (List.filter_append_perm (ofKind .p) (passageNodes doc)).flatMap_right _

/-- No passage comes out of a box that is new. -/
theorem boxPassages_eq_nil : boxPassages text doc = [] ↔
    ∀ pre box post, getElementsByType doc .textBox = pre ++ box :: post →
      (∃ a ∈ leaves box, a ∈ passages text doc) →
        chunk text box ∈ (withText text doc .p ++ withText text doc .h ++ pre).map (chunk text) := by
  have hboxes := @forall_newBoxes _ text (fun box => ∀ a ∈ leaves box, a ∉ passages text doc)
    ((withText text doc .p ++ withText text doc .h).map (chunk text))
    (getElementsByType doc .textBox)
  rw [boxPassages, List.filter_eq_nil_iff]
  constructor
  · rintro h pre box post heq ⟨a, ha, hpassage⟩
    by_contra hnew
    rw [List.map_append, List.mem_append, not_or] at hnew
    have hne : chunk text box ≠ [] := by
      intro hempty
      have hsolid : a ∈ solidLeaves text box :=
        List.mem_filter.mpr ⟨ha, solid_of_mem_passages hpassage⟩
      rw [solidLeaves_of_chunk hempty] at hsolid
      cases hsolid
    refine hboxes.mp (fun b hb x hx hmem => ?_) pre box post heq hne hnew.1 hnew.2 a ha hpassage
    exact h x (List.mem_flatMap.mpr ⟨b, hb, hx⟩) (decide_eq_true hmem)
  · intro h a ha hmem
    obtain ⟨box, hbox, hleaf⟩ := List.mem_flatMap.mp ha
    refine hboxes.mpr (fun pre b post heq hne hparts hpre x hx hpassage => ?_) box hbox a hleaf
      (of_decide_eq_true hmem)
    have htaken := h pre b post heq ⟨x, hx, hpassage⟩
    rw [List.map_append, List.mem_append] at htaken
    exact htaken.elim hparts hpre

omit [DecidableEq α] in
/-- Pieces that come once are not nested. -/
theorem flat_of_nodup (hnodup : ((passageNodes doc).flatMap (solidLeaves text)).Nodup) :
    ∀ node ∈ passageNodes doc, ∀ nested ∈ inner node, solidLeaves text nested = [] := by
  intro node hnode nested hnested
  have hsub := (inner_sublist hnode).flatMap (solidLeaves text)
  have hpair := hsub.nodup hnodup
  rw [List.flatMap_cons] at hpair
  have hinside : (leaves nested).Sublist (leaves node) := by
    cases node with
    | leaf a => exact absurd hnested List.not_mem_nil
    | elem kind children => exact (elementsOf_sublist children (List.mem_filter.mp hnested).1).1
  refine List.eq_nil_iff_forall_not_mem.mpr fun a ha => ?_
  exact (List.nodup_append.mp hpair).2.2 a ((hinside.filter _).subset ha) a
    (List.mem_flatMap.mpr ⟨nested, hnested, ha⟩) rfl

end Laws

/-- **What comes out.** Every piece of a heading or a paragraph comes out once and in the order of
the document exactly for the expected documents. -/
theorem extractOdf_iff [DecidableEq α] (text : α → Str) (doc : Document α) :
    Faithful text doc.root ↔ Expected text doc.root := by
  have hdistinct : (passages text doc.root).Nodup :=
    (passages_sublist doc.root).nodup doc.distinct
  rw [Faithful, filter_partNodes]
  constructor
  · intro h
    have hnodup := hdistinct
    rw [← h, List.nodup_append] at hnodup
    have hall : ∀ a ∈ passages text doc.root,
        a ∈ (passageNodes doc.root).flatMap (solidLeaves text) := by
      intro a ha
      obtain ⟨node, hnode, hleaf⟩ := (mem_passages doc.root).mp ha
      exact List.mem_flatMap.mpr ⟨node, hnode, hleaf⟩
    -- What the boxes add was there before.
    have hnone : boxPassages text doc.root = [] := by
      refine List.eq_nil_iff_forall_not_mem.mpr fun a ha => ?_
      have hpassage := of_decide_eq_true (List.mem_filter.mp ha).2
      exact hnodup.2.2 a (parts_perm.mem_iff.mpr (hall a hpassage)) a ha rfl
    have hparts := parts_perm.nodup_iff.mp hnodup.1
    have hflat := flat_of_nodup hparts
    rw [hnone, List.append_nil, ← flatMap_passageNodes doc.root hflat] at h
    exact ⟨hflat, (flatMap_parts_iff hparts).mp h, boxPassages_eq_nil.mp hnone⟩
  · intro h
    have hlist := flatMap_passageNodes doc.root h.flat
    have hnodup := hdistinct
    rw [← hlist] at hnodup
    rw [boxPassages_eq_nil.mpr h.boxes, List.append_nil, ← hlist]
    exact (flatMap_parts_iff hnodup).mpr h.order

/-- A text box with two paragraphs. -/
def twoParagraphs : Document Bool :=
  ⟨.elem .textBox [.elem .p [.leaf false], .elem .p [.leaf true]], by decide⟩

/-- Its text is neither that of the one nor that of the other: both come out twice. -/
theorem paragraphs_doubled :
    ¬ Faithful (fun a => if a then ['b'] else ['a']) twoParagraphs.root := by
  rw [Faithful]
  decide +kernel

example : extractOdf (fun a => if a then ['b'] else ['a']) twoParagraphs.root =
    ['a', '\n', 'b', '\n', 'a', 'b'] := by
  decide +kernel

end MesReunions.Odf
