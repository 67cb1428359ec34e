import MarkupTree.Proofs.Markup

/-!
# Written markup is unambiguous

Nothing is escaped, so markup can only be read back where no part of it holds a character that would
end it (`Markup.Plain`, `Node.Plain`). There each part is found again in front of whatever follows
it: what stands before a delimiter (`span_unique`), the attributes before the end of an opening tag
(`attributes_unique`), and content before the closing tag around it (`content_unique`). So plain
trees have the same written form exactly if they have the same markup (`render_eq_render_iff`).
-/

namespace MarkupTree

/-! ## Delimiters -/

/-- What stands before the first delimiter is determined, and so are the delimiter and the rest. -/
theorem span_unique {D : Char → Prop} {c d : Char} (hc : D c) (hd : D d) {r r' : List Char} :
    ∀ {s t : List Char}, (∀ x ∈ s, ¬D x) → (∀ x ∈ t, ¬D x) → s ++ c :: r = t ++ d :: r' →
      s = t ∧ c = d ∧ r = r'
  | [], [], _, _, h => ⟨rfl, List.cons.inj h⟩
  | [], x :: _, _, ht, h => absurd ((List.cons.inj h).1 ▸ hc) (ht x List.mem_cons_self)
  | x :: _, [], hs, _, h => absurd ((List.cons.inj h).1 ▸ hd) (hs x List.mem_cons_self)
  | x :: s, y :: t, hs, ht, h => by
    obtain ⟨hxy, h⟩ := List.cons.inj h
    obtain ⟨hst, hcd⟩ := span_unique hc hd (fun z hz => hs z (List.mem_cons_of_mem _ hz))
      (fun z hz => ht z (List.mem_cons_of_mem _ hz)) h
    exact ⟨by rw [hxy, hst], hcd⟩

/-- The text ends here, or a tag begins. -/
def AtTag (r : List Char) : Prop := r = [] ∨ ∃ q, r = '<' :: q

theorem text_unique {r r' : List Char} (hr : AtTag r) (hr' : AtTag r') :
    ∀ {s t : List Char}, '<' ∉ s → '<' ∉ t → s ++ r = t ++ r' → s = t ∧ r = r'
  | [], [], _, _, h => ⟨rfl, h⟩
  | [], x :: t, _, ht, h => by
    rcases hr with rfl | ⟨q, rfl⟩
    · cases h
    · exact absurd ((List.cons.inj h).1 ▸ List.mem_cons_self) ht
  | x :: s, [], hs, _, h => by
    rcases hr' with rfl | ⟨q, rfl⟩
    · cases h
    · exact absurd ((List.cons.inj h).1 ▸ List.mem_cons_self) hs
  | x :: s, y :: t, hs, ht, h => by
    obtain ⟨hxy, h⟩ := List.cons.inj h
    obtain ⟨hst, hr⟩ := text_unique hr hr' (fun hm => hs (List.mem_cons_of_mem _ hm))
      (fun hm => ht (List.mem_cons_of_mem _ hm)) h
    exact ⟨by rw [hxy, hst], hr⟩

/-! ## Plain markup -/

/-- No text holds the beginning of a tag. -/
def PlainText (s : String) : Prop := '<' ∉ s.toList
deriving Decidable

/-- A tag in lower case ends where a blank or `>` comes first, and does not look like a closing
tag. -/
def PlainTag (tag : String) : Prop :=
  ' ' ∉ tag.toList ∧ '>' ∉ tag.toList ∧ tag.toList.head? ≠ some '/'
deriving Decidable

/-- The name of an attribute ends where `=` comes first, and its value where a quotation mark does.
-/
def PlainAttribute (a : String × String) : Prop :=
  ('=' ∉ a.1.toList ∧ '>' ∉ a.1.toList) ∧ '"' ∉ a.2.toList
deriving Decidable

namespace Markup

/-- Content in which all texts, tags and attributes are plain and no text is empty or next to
another. -/
inductive Plain : List Markup → Prop
  | nil : Plain []
  | text {s : String} {ms : List Markup} : s ≠ "" → PlainText s →
    (∀ t rest, ms ≠ .text t :: rest) → Plain ms → Plain (.text s :: ms)
  | element {tag : String} {as : Option (List (String × String))} {inner ms : List Markup} :
    PlainTag tag → (∀ l, as = some l → ∀ a ∈ l, PlainAttribute a) → Plain inner → Plain ms →
    Plain (.element tag as inner :: ms)

/-! ## Opening tags -/

/-- What follows an attribute: nothing more, or a blank and more attributes. -/
def moreBefore (rest : List Char) (as : List (String × String)) : List Char :=
  if as.isEmpty then rest else ' ' :: attributesBefore rest as

theorem attributesBefore_cons (rest : List Char) (a : String × String)
    (as : List (String × String)) :
    attributesBefore rest (a :: as) = attributeBefore (moreBefore rest as) a := by
  cases as <;> rfl

theorem ne_attributeBefore {a : String × String} (ha : PlainAttribute a) (q r : List Char) :
    '>' :: r ≠ attributeBefore q a := by
  intro h
  have h' := span_unique (D := fun c => c = '=' ∨ c = '>') (s := []) (.inr rfl) (.inl rfl)
    (by simp) (fun x hx => ?_) h
  · exact absurd h'.2.1 (by decide)
  · rintro (rfl | rfl)
    · exact ha.1.1 hx
    · exact ha.1.2 hx

theorem attribute_unique {a b : String × String} (ha : PlainAttribute a) (hb : PlainAttribute b)
    {r r' : List Char} (h : attributeBefore r a = attributeBefore r' b) : a = b ∧ r = r' := by
  obtain ⟨hname, -, h⟩ := span_unique (D := (· = '=')) rfl rfl
    (fun x hx he => ha.1.1 (he ▸ hx)) (fun x hx he => hb.1.1 (he ▸ hx)) h
  obtain ⟨hvalue, -, h⟩ := span_unique (D := (· = '"')) rfl rfl
    (fun x hx he => ha.2 (he ▸ hx)) (fun x hx he => hb.2 (he ▸ hx)) (List.cons.inj h).2
  exact ⟨Prod.ext (String.toList_inj.1 hname) (String.toList_inj.1 hvalue), h⟩

theorem attributes_unique {r r' : List Char} :
    ∀ {as bs : List (String × String)}, (∀ a ∈ as, PlainAttribute a) →
      (∀ b ∈ bs, PlainAttribute b) →
      attributesBefore ('>' :: r) as = attributesBefore ('>' :: r') bs → as = bs ∧ r = r'
  | [], [], _, _, h => ⟨rfl, (List.cons.inj h).2⟩
  | [], b :: bs, _, hb, h => by
    rw [attributesBefore_cons] at h
    exact absurd h (ne_attributeBefore (hb b List.mem_cons_self) _ r)
  | a :: as, [], ha, _, h => by
    rw [attributesBefore_cons] at h
    exact absurd h.symm (ne_attributeBefore (ha a List.mem_cons_self) _ r')
  | a :: as, b :: bs, ha, hb, h => by
    rw [attributesBefore_cons, attributesBefore_cons] at h
    obtain ⟨hab, hmore⟩ := attribute_unique (ha a List.mem_cons_self) (hb b List.mem_cons_self) h
    have has := fun c hc => ha c (List.mem_cons_of_mem _ hc)
    have hbs := fun c hc => hb c (List.mem_cons_of_mem _ hc)
    have key : as = bs ∧ r = r' := by
      match as, bs, has, hbs, hmore with
      | [], [], _, _, hmore => exact ⟨rfl, (List.cons.inj hmore).2⟩
      | [], _ :: _, _, _, hmore => exact absurd (List.cons.inj hmore).1 (by decide)
      | _ :: _, [], _, _, hmore => exact absurd (List.cons.inj hmore).1 (by decide)
      | _ :: _, _ :: _, has, hbs, hmore => exact attributes_unique has hbs (List.cons.inj hmore).2
    exact ⟨by rw [hab, key.1], key.2⟩

theorem opening_unique {tag tag' : String} {as as' : Option (List (String × String))}
    (ht : PlainTag tag) (ht' : PlainTag tag') (ha : ∀ l, as = some l → ∀ a ∈ l, PlainAttribute a)
    (ha' : ∀ l, as' = some l → ∀ a ∈ l, PlainAttribute a) {r r' : List Char}
    (h : tag.toList ++ attributePartBefore ('>' :: r) as =
      tag'.toList ++ attributePartBefore ('>' :: r') as') : tag = tag' ∧ as = as' ∧ r = r' := by
  have hend : ∀ {t : String}, PlainTag t → ∀ x ∈ t.toList, ¬(x = ' ' ∨ x = '>') := by
    rintro t ht x hx (rfl | rfl)
    · exact ht.1 hx
    · exact ht.2.1 hx
  cases as with
  | none =>
    cases as' with
    | none =>
      obtain ⟨htag, -, h⟩ := span_unique (.inr rfl) (.inr rfl) (hend ht) (hend ht') h
      exact ⟨String.toList_inj.1 htag, rfl, h⟩
    | some l =>
      have h := (span_unique (.inr rfl) (.inl rfl) (hend ht) (hend ht') h).2.1
      exact absurd h (by decide)
  | some l =>
    cases as' with
    | none =>
      have h := (span_unique (.inl rfl) (.inr rfl) (hend ht) (hend ht') h).2.1
      exact absurd h (by decide)
    | some l' =>
      obtain ⟨htag, -, h⟩ := span_unique (.inl rfl) (.inl rfl) (hend ht) (hend ht') h
      obtain ⟨hl, h⟩ := attributes_unique (ha l rfl) (ha' l' rfl) h
      exact ⟨String.toList_inj.1 htag, congrArg some hl, h⟩

/-! ## Content -/

/-- What follows the content of an element or of the whole text. -/
def Closes (r : List Char) : Prop := r = [] ∨ ∃ q, r = '<' :: '/' :: q

theorem Closes.atTag {r : List Char} (h : Closes r) : AtTag r :=
  h.imp_right fun ⟨q, hq⟩ => ⟨'/' :: q, hq⟩

theorem not_atTag_text {s : String} (hne : s ≠ "") (hs : PlainText s) (r : List Char) :
    ¬AtTag (s.toList ++ r) := by
  cases hl : s.toList with
  | nil => exact absurd (String.toList_inj.1 (by rw [hl]; rfl)) hne
  | cons c l =>
    rintro (h | ⟨q, h⟩)
    · cases h
    · obtain rfl : c = '<' := (List.cons.inj h).1
      exact hs (hl ▸ List.mem_cons_self)

theorem not_closes_element {tag : String} (ht : PlainTag tag)
    (as : Option (List (String × String))) (inner : List Markup) (r : List Char) :
    ¬Closes (before r (.element tag as inner)) := by
  rintro (h | ⟨q, h⟩)
  · cases h
  · obtain h := (List.cons.inj h).2
    cases hl : tag.toList with
    | nil =>
      rw [hl] at h
      cases as with
      | none => exact absurd (List.cons.inj h).1 (by decide)
      | some l => exact absurd (List.cons.inj h).1 (by decide)
    | cons c l =>
      rw [hl] at h
      exact ht.2.2 (by rw [hl, (List.cons.inj h).1]; rfl)

/-- After a text that no other text follows, the content ends or a tag begins. -/
theorem atTag_contentBefore {r : List Char} (hr : Closes r) {ms : List Markup}
    (h : ∀ t rest, ms ≠ .text t :: rest) : AtTag (contentBefore r ms) := by
  match ms with
  | [] => exact hr.atTag
  | .text t :: rest => exact absurd rfl (h t rest)
  | .element tag as inner :: rest => exact .inr ⟨_, rfl⟩

/-- **Content in front of whatever closes it is determined**, and so is the rest. -/
theorem content_unique {ms ms' : List Markup} (h : Plain ms) (h' : Plain ms') {r r' : List Char}
    (hr : Closes r) (hr' : Closes r') (heq : contentBefore r ms = contentBefore r' ms') :
    ms = ms' ∧ r = r' := by
  induction h generalizing ms' r r' with
  | nil =>
    cases h' with
    | nil => exact ⟨rfl, heq⟩
    | text hne hs => exact absurd ((congrArg AtTag heq).mp hr.atTag) (not_atTag_text hne hs _)
    | element ht => exact absurd ((congrArg Closes heq).mp hr) (not_closes_element ht _ _ _)
  | text hne hs hms _ ih =>
    cases h' with
    | nil => exact absurd ((congrArg AtTag heq).mpr hr'.atTag) (not_atTag_text hne hs _)
    | text _ hs' hms' h' =>
      obtain ⟨hst, hrest⟩ := text_unique (atTag_contentBefore hr hms)
        (atTag_contentBefore hr' hms') hs hs' heq
      obtain ⟨rfl, hrr⟩ := ih h' hr hr' hrest
      exact ⟨by rw [String.toList_inj.1 hst], hrr⟩
    | element => exact absurd ((congrArg AtTag heq).mpr (.inr ⟨_, rfl⟩)) (not_atTag_text hne hs _)
  | element ht ha _ _ ihInner ih =>
    cases h' with
    | nil => exact absurd ((congrArg Closes heq).mpr hr') (not_closes_element ht _ _ _)
    | text hne hs =>
      exact absurd ((congrArg AtTag heq).mp (.inr ⟨_, rfl⟩)) (not_atTag_text hne hs _)
    | element ht' ha' hInner' h' =>
      obtain ⟨rfl, rfl, hcontent⟩ := opening_unique ht ht' ha ha' (List.cons.inj heq).2
      obtain ⟨rfl, hclose⟩ := ihInner hInner' (.inr ⟨_, rfl⟩) (.inr ⟨_, rfl⟩) hcontent
      -- the same closing tag stands on both sides, so what follows it is the same
      have hrest := List.append_cancel_left (List.cons.inj (List.cons.inj hclose).2).2
      obtain ⟨rfl, hrr⟩ := ih h' hr hr' (List.cons.inj hrest).2
      exact ⟨rfl, hrr⟩

/-! ## The markup of plain trees -/

theorem Plain.textThen {s : String} (hs : PlainText s) {ms : List Markup} (h : Plain ms) :
    Plain (textThen s ms) := by
  unfold Markup.textThen
  split
  · cases h with
    | text hne ht hrest h =>
      refine .text (by simp [hne]) ?_ hrest h
      simpa [PlainText, String.toList_append] using ⟨hs, ht⟩
  · rename_i hms
    split
    · exact h
    · rename_i hne
      exact .text hne hs hms h

theorem andThen_nil_injective {m m' : Markup} (h : m.andThen [] = m'.andThen []) : m = m' := by
  cases m with
  | text s =>
    cases m' with
    | text t =>
      by_cases hs : s = "" <;> by_cases ht : t = "" <;> simp_all [andThen, Markup.textThen]
    | element => by_cases hs : s = "" <;> simp [andThen, Markup.textThen, hs] at h
  | element =>
    cases m' with
    | text t => by_cases ht : t = "" <;> simp [andThen, Markup.textThen, ht] at h
    | element => exact List.head_eq_of_cons_eq h

end Markup

namespace Node

variable (options : RenderOptions)

/-- All attributes that are written for an element are plain. -/
def PlainProperties (p : Option Properties) : Prop :=
  ∀ q, p = some q → ∀ e ∈ q.flatten, PlainAttribute (e.1, options.formatValue e.2)

/-- A tree in which no text value contains `<`, no tag in lower case contains a blank or `>` or
starts with `/`, no name of a flattened attribute contains `=` or `>`, and no formatted attribute
value contains a quotation mark. -/
inductive Plain : Node → Prop
  | text {s : String} : PlainText s → Plain (.text s)
  | bare {tag : String} {p : Option Properties} : PlainTag (Text.lowercase tag) →
    PlainProperties options p → Plain (.element tag p none)
  | parent {tag : String} {p : Option Properties} {children : List Node} :
    PlainTag (Text.lowercase tag) → PlainProperties options p → (∀ n ∈ children, Plain n) →
    Plain (.element tag p (some children))

variable {options}

theorem PlainProperties.attributePart {p : Option Properties} (h : PlainProperties options p) :
    ∀ l, Node.attributePart options p = some l → ∀ a ∈ l, PlainAttribute a := by
  intro l hl a ha
  cases p with
  | none => cases hl
  | some q =>
    rw [Node.attributePart] at hl
    split at hl
    · cases hl
    · obtain rfl := Option.some.inj hl
      obtain ⟨e, he, rfl⟩ := List.mem_map.1 ha
      exact h q rfl e he

theorem plain_content_of {ns : List Node}
    (h : ∀ n ∈ ns, ∀ ms, Markup.Plain ms → Markup.Plain ((markup options n).andThen ms)) :
    Markup.Plain (content options ns) := by
  induction ns with
  | nil => exact .nil
  | cons n ns ih =>
    exact h n List.mem_cons_self _ (ih fun m hm => h m (List.mem_cons_of_mem _ hm))

/-- The markup of a plain tree is plain in front of plain content. -/
theorem Plain.andThen {n : Node} (h : n.Plain options) :
    ∀ ms, Markup.Plain ms → Markup.Plain ((markup options n).andThen ms) := by
  induction h with
  | text hs => exact fun ms hms => hms.textThen hs
  | bare ht hp => exact fun ms hms => .element ht hp.attributePart .nil hms
  | parent ht hp _ ih =>
    exact fun ms hms => .element ht hp.attributePart (plain_content_of ih) hms

/-- **Rendered markup is unambiguous**: plain trees have the same written form exactly if they have
the same markup. -/
theorem render_eq_render_iff {a b : Node} (ha : a.Plain options) (hb : b.Plain options) :
    render a options = render b options ↔ markup options a = markup options b := by
  have hwritten : ∀ n : Node, (render n options).toList =
      Markup.contentBefore [] ((markup options n).andThen []) := by
    intro n
    simp [Markup.contentBefore, ← toList_render]
  constructor
  · intro h
    rw [← String.toList_inj, hwritten, hwritten] at h
    have hab := (Markup.content_unique (ha.andThen [] .nil) (hb.andThen [] .nil) (.inl rfl)
      (.inl rfl) h).1
    exact Markup.andThen_nil_injective hab
  · intro h
    rw [← String.toList_inj, hwritten, hwritten, h]

/-- Two spellings of one piece of markup: cut and empty texts, a nested and a joined name, absent
and empty children. Another value of the attribute makes other markup. -/
theorem render_eq_render_spellings :
    let a := element "DIV"
      (some [(.name "data", .nested [(.name "x", .attr (.scalar (.bool true)))])])
      (some [text "a", text "", text "b", element "br" none none])
    let spelled (value : String) :=
      element "div" (some [(.compound ["data", "x"], .attr (.list [.symbol value]))])
        (some [text "ab", element "BR" none (some [])])
    let b := spelled "true"
    let c := spelled "yes"
    a.Plain {} ∧ b.Plain {} ∧ c.Plain {} ∧ render a {} = render b {} ∧ markup {} a = markup {} b ∧
      markup {} b ≠ markup {} c ∧ render b {} ≠ render c {} := by
  intro a spelled b c
  have ha : a.Plain {} := by
    refine .parent (by decide +kernel) ?_ ?_
    · rintro q ⟨⟩
      decide +kernel
    · simp only [List.forall_mem_cons]
      refine ⟨.text (by decide +kernel), .text (by decide +kernel), .text (by decide +kernel),
        .bare (by decide +kernel) nofun, nofun⟩
  have hspelled : ∀ value, PlainProperties {} (some [(.compound ["data", "x"],
      .attr (.list [.symbol value]))]) → (spelled value).Plain {} := by
    intro value hvalue
    refine .parent (by decide +kernel) hvalue ?_
    simp only [List.forall_mem_cons]
    exact ⟨.text (by decide +kernel), .parent (by decide +kernel) nofun nofun, nofun⟩
  have hb : b.Plain {} := hspelled "true" (by rintro q ⟨⟩; decide +kernel)
  have hc : c.Plain {} := hspelled "yes" (by rintro q ⟨⟩; decide +kernel)
  have hsame : render a {} = render b {} := by decide +kernel
  have hother : markup {} b ≠ markup {} c := by
    intro h
    have hparts := (Markup.element.inj h).2.1
    revert hparts
    decide +kernel
  exact ⟨ha, hb, hc, hsame, (render_eq_render_iff ha hb).1 hsame, hother,
    fun h => hother ((render_eq_render_iff hb hc).1 h)⟩

end Node

end MarkupTree
