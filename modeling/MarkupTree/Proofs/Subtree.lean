import MarkupTree.Proofs.Render

/-!
# Exchanging a node in a tree

`Node.replace` puts another node in the place to which a path leads. What is written of the tree
then changes there and nowhere else: the text before the place and the text after it
(`writtenBefore`, `writtenAfter`) hang neither on the node that was there nor on the one that is put
there (`writtenBefore_replace`, `writtenAfter_replace`), and the written form of the tree is that of
the node between the two (`render_replace_eq`). So nodes that are written alike may stand for each
other anywhere, and a text stands in the written form of a tree as it is (`render_replace`).
-/

namespace MarkupTree.Node

open RenderOptions

/-! ## Putting another node in a place -/

/-- The tree with `m` in the place to which places among the children lead; the tree as it is where
they lead nowhere. -/
def replace : Node → List Nat → Node → Node
  | _, [], m => m
  | .element tag p (some ns), i :: path, m =>
    .element tag p (some (ns.modify i fun n => n.replace path m))
  | t, _ :: _, _ => t

@[simp] theorem replace_nil (t m : Node) : t.replace [] m = m := by cases t <;> rfl

@[simp] theorem replace_step (tag : String) (p : Option Properties) (before after : List Node)
    (c : Node) (path : List Nat) (m : Node) :
    (Node.element tag p (some (before ++ c :: after))).replace (before.length :: path) m =
      .element tag p (some (before ++ c.replace path m :: after)) := by
  have hplace : before.length < (before ++ c :: after).length := by simp
  simp [replace, List.modify_eq_take_cons_drop hplace]

theorem descendant?_replace {t n : Node} {path : List Nat} (h : t.descendant? path = some n)
    (m : Node) : (t.replace path m).descendant? path = some m := by
  induction path generalizing t with
  | nil => simp
  | cons i path ih =>
    obtain ⟨tag, p, before, c, after, rfl, rfl, hc⟩ := exists_of_descendant?_cons h
    simp [ih hc]

theorem replace_self {t n : Node} {path : List Nat} (h : t.descendant? path = some n) :
    t.replace path n = t := by
  induction path generalizing t with
  | nil =>
    rw [descendant?_nil] at h
    rw [replace_nil, Option.some.inj h]
  | cons i path ih =>
    obtain ⟨tag, p, before, c, after, rfl, rfl, hc⟩ := exists_of_descendant?_cons h
    simp [ih hc]

/-! ## What is written around a place -/

variable (options : RenderOptions)

/-- What is written of a tree before the node to which a path leads. -/
def writtenBefore : Node → List Nat → String
  | .element tag p (some ns), i :: path =>
    openTag options tag p ++ String.join ((ns.take i).map (render · options)) ++
      (ns[i]?.elim "" fun n => n.writtenBefore path)
  | _, _ => ""

/-- What is written of a tree after the node to which a path leads. -/
def writtenAfter : Node → List Nat → String
  | .element tag _ (some ns), i :: path =>
    (ns[i]?.elim "" fun n => n.writtenAfter path) ++
      String.join ((ns.drop (i + 1)).map (render · options)) ++ closeTag tag
  | _, _ => ""

@[simp] theorem writtenBefore_nil (t : Node) : t.writtenBefore options [] = "" := by
  rcases t with s | ⟨tag, p, _ | ns⟩ <;> rfl

@[simp] theorem writtenAfter_nil (t : Node) : t.writtenAfter options [] = "" := by
  rcases t with s | ⟨tag, p, _ | ns⟩ <;> rfl

section Step

variable (tag : String) (p : Option Properties) (before after : List Node) (c : Node)
  (path : List Nat)

@[simp] theorem writtenBefore_step :
    (Node.element tag p (some (before ++ c :: after))).writtenBefore options
      (before.length :: path) =
        openTag options tag p ++ String.join (before.map (render · options)) ++
          c.writtenBefore options path := by
  simp [writtenBefore]

@[simp] theorem writtenAfter_step :
    (Node.element tag p (some (before ++ c :: after))).writtenAfter options
      (before.length :: path) =
        c.writtenAfter options path ++ String.join (after.map (render · options)) ++
          closeTag tag := by
  simp [writtenAfter]

end Step

section Place

variable {t n : Node} {path : List Nat} (h : t.descendant? path = some n) (m : Node)
include h

/-- What is written before a place does not hang on the node in it. -/
theorem writtenBefore_replace :
    (t.replace path m).writtenBefore options path = t.writtenBefore options path := by
  induction path generalizing t with
  | nil => simp
  | cons i path ih =>
    obtain ⟨tag, p, before, c, after, rfl, rfl, hc⟩ := exists_of_descendant?_cons h
    simp [ih hc]

theorem writtenAfter_replace :
    (t.replace path m).writtenAfter options path = t.writtenAfter options path := by
  induction path generalizing t with
  | nil => simp
  | cons i path ih =>
    obtain ⟨tag, p, before, c, after, rfl, rfl, hc⟩ := exists_of_descendant?_cons h
    simp [ih hc]

/-- The written form of a tree is that of a node in it between what is written around its place. -/
theorem render_replace_eq : (t.replace path m).render options =
    t.writtenBefore options path ++ m.render options ++ t.writtenAfter options path := by
  induction path generalizing t with
  | nil => simp
  | cons i path ih =>
    obtain ⟨tag, p, before, c, after, rfl, rfl, hc⟩ := exists_of_descendant?_cons h
    rw [replace_step, writtenBefore_step, writtenAfter_step, render_parent, List.map_append,
      List.map_cons, String.join_append, String.join_cons, ih hc]
    simp only [String.append_assoc]

end Place

/-- **Trees are written piece by piece.** Whatever node is put in a place of a tree, its written
form stands between the same two texts, and the writer only adds it to what is there already. Nodes
that are written alike may be exchanged, and a text is written as it is. -/
theorem render_replace :
    (∀ (n : Node) (out : String), renderOnto options out n = out ++ n.render options) ∧
    ∀ (t n : Node) (path : List Nat), t.descendant? path = some n →
      t.replace path n = t ∧
      (∀ m : Node, (t.replace path m).descendant? path = some m ∧
        (t.replace path m).writtenBefore options path = t.writtenBefore options path ∧
        (t.replace path m).writtenAfter options path = t.writtenAfter options path ∧
        (t.replace path m).render options =
          t.writtenBefore options path ++ m.render options ++ t.writtenAfter options path) ∧
      (∀ m m' : Node, m.render options = m'.render options →
        (t.replace path m).render options = (t.replace path m').render options) ∧
      ∀ s : String, n = .text s →
        t.render options = t.writtenBefore options path ++ s ++ t.writtenAfter options path := by
  refine ⟨renderOnto_eq options, fun t n path h => ⟨replace_self h, fun m => ?_, ?_, ?_⟩⟩
  · exact ⟨descendant?_replace h m, writtenBefore_replace options h m,
      writtenAfter_replace options h m, render_replace_eq options h m⟩
  · intro m m' hm
    rw [render_replace_eq options h, render_replace_eq options h, hm]
  · rintro s rfl
    have hself := render_replace_eq options h (.text s)
    rwa [replace_self h, render_text] at hself

/-- A text two levels deep, under an element with properties; a line break is put in its place, and
a text that is written like one. -/
theorem render_replace_nested :
    let br := Node.element "br" none none
    let list := Node.element "UL" (some [(.name "id", .attr (.scalar (.str "a")))])
      (some [br, .element "li" none (some [.text "x", .text "y"]), br])
    list.descendant? [1, 1] = some (.text "y") ∧ br.render = (Node.text "<br></br>").render ∧
      list.render = "<ul id=\"a\"><br></br><li>x" ++ "y" ++ "</li><br></br></ul>" ∧
      (list.replace [1, 1] br).render =
        "<ul id=\"a\"><br></br><li>x" ++ br.render ++ "</li><br></br></ul>" ∧
      (list.replace [1, 1] br).render = (list.replace [1, 1] (.text "<br></br>")).render := by
  intro br list
  have hplace : list.descendant? [1, 1] = some (.text "y") := rfl
  have halike : br.render = (Node.text "<br></br>").render := by decide +kernel
  have hbefore : list.writtenBefore {} [1, 1] = "<ul id=\"a\"><br></br><li>x" := by
    decide +kernel
  have hafter : list.writtenAfter {} [1, 1] = "</li><br></br></ul>" := by decide +kernel
  obtain ⟨-, hreplace, hexchange, htext⟩ := (render_replace {}).2 list _ _ hplace
  rw [hbefore, hafter] at htext
  refine ⟨hplace, halike, htext "y" rfl, ?_, hexchange _ _ halike⟩
  rw [(hreplace br).2.2.2, hbefore, hafter]

end MarkupTree.Node
