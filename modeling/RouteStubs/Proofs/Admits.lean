import RouteStubs.Proofs.Datum
import RouteStubs.Proofs.Schema.Definitions
import RouteStubs.Proofs.Shape

/-!
# Values that a shape admits

Shapes are read as sets of values: a handle admits what its definition admits, a record admits more
fields of any kind unless it has a trailer, a union admits what one of its variants admits. What a
value of an enumeration stands for is a parameter, so that truth values can be told from numbers or
not.

Shapes that are the same admit the same values if the scalars in their enumerations that are the same
stand for the same.

## Main definitions

* `Definitions.Admits`: the shape admits the value.
* `Definitions.Fits`: the value has the fields of a record.
* `Definitions.From`: fields that others are merged into.
* `Shape.Mentions`: a scalar is in an enumeration inside the shape.

## Main statements

* `Definitions.Admits.of_same`: a shape admits what one that is the same admits.
* `Definitions.Fits.merge`: a value that has the fields of two records has those of the merged one.
-/

namespace RouteStubs

/-- The scalar is in an enumeration inside the shape; handles are not looked through. -/
inductive Shape.Mentions (s : Scalar) : Shape → Prop
  | enum {values : List Scalar} (h : s ∈ values) : Mentions s (.enum values)
  | array {element : Shape} (h : Mentions s element) : Mentions s (.array element)
  | union {variants : List Shape} {discriminator : Option String} {node : Shape}
      (hm : node ∈ variants) (h : Mentions s node) : Mentions s (.union variants discriminator)
  | field {fields : List (Field Shape)} {trailer : Option Shape} {description : String}
      {source : Option Source} {f : Field Shape} (hm : f ∈ fields) (h : Mentions s f.node) :
      Mentions s (.record fields trailer description source)
  | trailer {fields : List (Field Shape)} {node : Shape} {description : String}
      {source : Option Source} (h : Mentions s node) :
      Mentions s (.record fields (some node) description source)

namespace Definitions

variable (key : Scalar → Datum) (definitions : Definitions)

/-- The shape admits the value. Two scalars stand for the same if they have the same `key`. -/
inductive Admits : Shape → Value → Prop
  | primitive {kind : Kind} {format v : Value} (h : kind.admits v = true) :
      Admits (.primitive kind format) v
  | record {fields : List (Field Shape)} {trailer : Option Shape} {description : String}
      {source : Option Source} {v : Value} (mapping : v.isMapping = true)
      (named : ∀ f ∈ fields, ∀ w, v.HasEntry f.name w → Admits f.node w)
      (required : ∀ f ∈ fields, f.required = true → ∃ w, v.HasEntry f.name w)
      (further : ∀ node, trailer = some node → ∀ name w, v.HasEntry name w →
        (∀ f ∈ fields, f.name ≠ name) → Admits node w) :
      Admits (.record fields trailer description source) v
  | array {element : Shape} {v : Value} (list : v.isList = true)
      (items : ∀ w, v.HasItem w → Admits element w) : Admits (.array element) v
  | union {variants : List Shape} {discriminator : Option String} {node : Shape} {v : Value}
      (hm : node ∈ variants) (h : Admits node v) : Admits (.union variants discriminator) v
  | enum {values : List Scalar} {a s : Scalar} (hm : a ∈ values) (h : key a = key s) :
      Admits (.enum values) (.scalar s)
  | handle {target : String} {node : Shape} {v : Value} (hf : definitions.find? target = some node)
      (h : Admits node v) : Admits (.handle target) v
  | unknown {v : Value} : Admits .unknown v

/-- The value has the fields, and its further entries are as the trailer says. -/
structure Fits (fields : List (Field Shape)) (trailer : Option Shape) (v : Value) : Prop where
  named : ∀ f ∈ fields, ∀ w, v.HasEntry f.name w → Admits key definitions f.node w
  required : ∀ f ∈ fields, f.required = true → ∃ w, v.HasEntry f.name w
  further : ∀ node, trailer = some node → ∀ name w, v.HasEntry name w →
    (∀ f ∈ fields, f.name ≠ name) → Admits key definitions node w

variable {key definitions} {node other found : Shape} {nodes : List Shape} {v : Value}
  {fields more merged : List (Field Shape)} {trailer tail : Option Shape} {description : String}
  {source : Option Source}

theorem admits_record_iff : Admits key definitions (.record fields trailer description source) v ↔
    v.isMapping = true ∧ Fits key definitions fields trailer v := by
  constructor
  · intro h
    cases h with
    | record hv named required further => exact ⟨hv, named, required, further⟩
  · rintro ⟨hv, h⟩
    exact .record hv h.named h.required h.further

/-- What a handle leads to admits what the handle admits. -/
theorem Admits.followIn {steps : Nat} (h : Admits key definitions node v)
    (hf : followIn definitions.find? steps node = some found) : Admits key definitions found v := by
  induction steps generalizing node with
  | zero =>
    cases node with
    | handle target => cases hf
    | _ => cases hf; exact h
  | succ steps ih =>
    cases node with
    | handle target =>
      cases h with
      | handle hn h =>
        rw [Definitions.followIn, hn] at hf
        exact ih h hf
    | _ => cases hf; exact h

theorem Admits.dereference (h : Admits key definitions node v)
    (hf : definitions.dereference node = some found) : Admits key definitions found v :=
  h.followIn hf

/-! ### Null -/

theorem admits_nullShape : Admits key definitions Shape.nullShape .null := .primitive rfl

/-- A shape with null added admits what the shape admits, and null. -/
theorem Admits.orNull (h : Admits key definitions node v) : Admits key definitions node.orNull v := by
  unfold Shape.orNull
  split
  · exact h
  · split
    · exact h
    · cases h with
      | union hm h => exact .union (List.mem_append_left _ hm) h
  · split
    · exact h
    · exact .union List.mem_cons_self h

theorem admits_orNull_null : Admits key definitions node.orNull .null := by
  unfold Shape.orNull
  split
  · exact .unknown
  · -- null is one of the variants already, or it is added to them
    split
    · next ha =>
      obtain ⟨w, hw, hs⟩ := List.any_eq_true.mp ha
      obtain ⟨format, rfl⟩ := Shape.exists_of_primitive_same hs
      exact .union hw (.primitive rfl)
    · exact .union (List.mem_append_right _ (List.mem_singleton_self _)) admits_nullShape
  · split
    · next hn =>
      obtain ⟨format, rfl⟩ := Shape.exists_of_isNull hn
      exact .primitive rfl
    · exact .union (List.mem_cons_of_mem _ (List.mem_singleton_self _)) admits_nullShape

/-! ### Shapes that are the same -/

section Same

variable (key) in
/-- Scalars of the two shapes that are the same stand for the same. -/
def Agree (node other : Shape) : Prop :=
  ∀ a b, node.Mentions a → other.Mentions b → a.same b = true → key a = key b

/-- A shape admits what one that is the same admits. -/
theorem Admits.of_same (h : Admits key definitions node v) (hs : node.same other = true)
    (ha : Agree key node other) : Admits key definitions other v := by
  induction h generalizing other with
  | primitive h =>
    obtain ⟨format, rfl⟩ := Shape.exists_of_primitive_same hs
    exact .primitive h
  | @record fields trailer description source v hv named required further ihnamed ihfurther =>
    cases other with
    | record gs u description' source' =>
      simp only [Shape.same, Bool.and_eq_true] at hs
      -- fields are compared in order, so each has one of its name in the other record
      have hfields := Shape.forall₂_of_sameFields hs.1
      refine .record hv (fun g hg w hw => ?_) (fun g hg hr => ?_) fun node hnode name w hw hn => ?_
      · obtain ⟨f, hf, hname, hsame, -⟩ := exists_mem_of_forall₂ hfields.flip hg
        exact ihnamed f hf w (hname ▸ hw) hsame fun a b hma hmb =>
          ha a b (.field hf hma) (.field hg hmb)
      · obtain ⟨f, hf, hname, -, hreq⟩ := exists_mem_of_forall₂ hfields.flip hg
        exact hname ▸ required f hf (hreq.trans hr)
      · subst hnode
        cases trailer with
        | none => simp [Shape.sameTrailer] at hs
        | some t =>
          refine ihfurther t rfl name w hw (fun f hf => ?_) (by simpa [Shape.sameTrailer] using hs.2)
            fun a b hma hmb => ha a b (.trailer hma) (.trailer hmb)
          obtain ⟨g, hg, hname, -⟩ := exists_mem_of_forall₂ hfields hf
          exact hname ▸ hn g hg
    | _ => simp [Shape.same] at hs
  | array hv items ih =>
    cases other with
    | array element =>
      exact .array hv fun w hw => ih w hw (by simpa [Shape.same] using hs) fun a b hma hmb =>
        ha a b (.array hma) (.array hmb)
    | _ => simp [Shape.same] at hs
  | union hm _ ih =>
    cases other with
    | union others discriminator =>
      simp only [Shape.same, Bool.and_eq_true] at hs
      obtain ⟨b, hb, hsame⟩ := exists_mem_of_forall₂ (Shape.forall₂_of_sameVariants hs.1) hm
      exact .union hb (ih hsame fun s t hms hmt => ha s t (.union hm hms) (.union hb hmt))
    | _ => simp [Shape.same] at hs
  | enum hm h =>
    cases other with
    | enum bs =>
      simp only [Shape.same] at hs
      obtain ⟨b, hb, hsame⟩ := exists_mem_of_forall₂ (Shape.forall₂_of_sameScalars hs) hm
      exact .enum hb ((ha _ b (.enum hm) (.enum hb) hsame).symm.trans h)
    | _ => simp [Shape.same] at hs
  | handle hf h _ =>
    cases other with
    | handle target =>
      -- handles are the same only if they have one target, and that is not compared any further
      cases Shape.eq_handle_of_same hs
      exact .handle hf h
    | _ => simp [Shape.same] at hs
  | unknown =>
    cases other with
    | unknown => exact .unknown
    | _ => simp [Shape.same] at hs

/-- What a shape of a list admits, one of the shapes that are kept admits. -/
theorem Admits.exists_distinct (h : Admits key definitions node v) (hm : node ∈ nodes)
    (ha : ∀ a ∈ nodes, ∀ b ∈ nodes, Agree key a b) :
    ∃ other ∈ Shape.distinct nodes, Admits key definitions other v := by
  rcases Shape.exists_mem_distinct hm with hk | ⟨other, ho, hs⟩
  · exact ⟨node, hk, h⟩
  · exact ⟨other, ho, h.of_same hs (ha node hm other (Shape.mem_of_mem_distinct ho))⟩

end Same

/-! ### Merged records -/

/-- A field that is required if a field of its name is. -/
def marked (f g : Field Shape) : Field Shape :=
  if g.name == f.name then { g with required := g.required || f.required } else g

variable {f g : Field Shape}

@[simp] theorem marked_name : (marked f g).name = g.name := by
  unfold marked
  split <;> rfl

@[simp] theorem marked_node : (marked f g).node = g.node := by
  unfold marked
  split <;> rfl

theorem required_of_marked (h : (marked f g).required = true) :
    g.required = true ∨ g.name = f.name ∧ f.required = true := by
  unfold marked at h
  split at h
  · next hname => exact (Bool.or_eq_true _ _).mp h |>.imp id fun hf => ⟨eq_of_beq hname, hf⟩
  · exact .inl h

/-- Fields of which each is one of the others, and is required only if one of its name is. -/
structure From (fields merged : List (Field Shape)) : Prop where
  node : ∀ g ∈ merged, ∃ f ∈ fields, f.name = g.name ∧ f.node = g.node
  required : ∀ g ∈ merged, g.required = true → ∃ f ∈ fields, f.name = g.name ∧ f.required = true
  name : ∀ f ∈ fields, ∃ g ∈ merged, g.name = f.name

theorem From.refl (fields : List (Field Shape)) : From fields fields :=
  ⟨fun g hg => ⟨g, hg, rfl, rfl⟩, fun g hg hr => ⟨g, hg, rfl, hr⟩, fun f hf => ⟨f, hf, rfl⟩⟩

theorem From.trans (h : From fields more) (h' : From more merged) : From fields merged where
  node g hg := by
    obtain ⟨f, hf, hname, hnode⟩ := h'.node g hg
    obtain ⟨e, he, hname', hnode'⟩ := h.node f hf
    exact ⟨e, he, hname'.trans hname, hnode'.trans hnode⟩
  required g hg hr := by
    obtain ⟨f, hf, hname, hr⟩ := h'.required g hg hr
    obtain ⟨e, he, hname', hr⟩ := h.required f hf hr
    exact ⟨e, he, hname'.trans hname, hr⟩
  name f hf := by
    obtain ⟨e, he, hname⟩ := h.name f hf
    obtain ⟨g, hg, hname'⟩ := h'.name e he
    exact ⟨g, hg, hname'.trans hname⟩

/-- A field whose name is there is merged by marking the fields of its name. -/
theorem from_marked {rest : List (Field Shape)} (hg : g ∈ fields) (hname : g.name = f.name) :
    From (fields ++ f :: rest) (fields.map (marked f) ++ rest) := by
  have hold : ∀ e ∈ fields, e ∈ fields ++ f :: rest := fun _ => List.mem_append_left _
  have hrest : ∀ e ∈ rest, e ∈ fields ++ f :: rest := fun _ he =>
    List.mem_append_right _ (List.mem_cons_of_mem _ he)
  refine ⟨fun h hh => ?_, fun h hh hr => ?_, fun h hh => ?_⟩
  · -- where a merged field comes from
    rcases List.mem_append.mp hh with hh | hh
    · obtain ⟨e, he, rfl⟩ := List.mem_map.mp hh
      exact ⟨e, hold e he, marked_name.symm, marked_node.symm⟩
    · exact ⟨h, hrest h hh, rfl, rfl⟩
  · -- which field makes it required
    rcases List.mem_append.mp hh with hh | hh
    · obtain ⟨e, he, rfl⟩ := List.mem_map.mp hh
      rcases required_of_marked hr with hr | ⟨hn, hr⟩
      · exact ⟨e, hold e he, marked_name.symm, hr⟩
      · exact ⟨f, List.mem_append_right _ List.mem_cons_self, hn.symm.trans marked_name.symm, hr⟩
    · exact ⟨h, hrest h hh, rfl, hr⟩
  · -- where each name goes
    rcases List.mem_append.mp hh with hh | hh
    · exact ⟨marked f h, List.mem_append_left _ (List.mem_map_of_mem hh), marked_name⟩
    · rcases List.mem_cons.mp hh with rfl | hh
      · exact ⟨marked h g, List.mem_append_left _ (List.mem_map_of_mem hg),
          marked_name.trans hname⟩
      · exact ⟨h, List.mem_append_right _ hh, rfl⟩

theorem from_mergeFields {context : String}
    (hm : Canon.mergeFields context fields more = .ok merged) : From (fields ++ more) merged := by
  induction more generalizing fields with
  | nil =>
    cases hm
    rw [List.append_nil]
    exact .refl _
  | cons f rest ih =>
    rw [Canon.mergeFields] at hm
    -- a new name goes to the end, and a name that is there marks its field
    split at hm
    · have h := ih hm
      rwa [List.append_assoc, List.singleton_append] at h
    · next g hg =>
      split at hm
      · have hname : g.name = f.name := by simpa using List.find?_some hg
        exact (from_marked (List.mem_of_find?_eq_some hg) hname).trans (ih hm)
      · cases hm

/-- What holds of the shapes of the fields of two records holds of those of the merged fields. -/
theorem forall_node_of_mergeFields {context : String} {P : Shape → Prop}
    (hm : Canon.mergeFields context fields more = .ok merged) (hf : ∀ f ∈ fields, P f.node)
    (hmore : ∀ f ∈ more, P f.node) : ∀ g ∈ merged, P g.node := by
  intro g hg
  obtain ⟨f, hmem, -, hnode⟩ := (from_mergeFields hm).node g hg
  exact hnode ▸ (List.mem_append.mp hmem).elim (hf f) (hmore f)

/-- A record without fields asks for nothing. -/
theorem fits_empty : Fits key definitions [] none v := by
  refine ⟨fun f hf => ?_, fun f hf => ?_, fun node hn => ?_⟩
  · cases hf
  · cases hf
  · cases hn

/-- A value that has the fields of two records has those of the record that they are merged into. -/
theorem Fits.merge {context : String} (h : Fits key definitions fields trailer v)
    (h' : Fits key definitions more tail v)
    (hm : Canon.mergeFields context fields more = .ok merged) :
    Fits key definitions merged (trailer.or tail) v := by
  have hfrom := from_mergeFields hm
  refine ⟨fun g hg w hw => ?_, fun g hg hr => ?_, fun node hn name w hw hno => ?_⟩
  · obtain ⟨f, hf, hname, hnode⟩ := hfrom.node g hg
    rw [← hname] at hw
    rw [← hnode]
    exact (List.mem_append.mp hf).elim (h.named f · w hw) (h'.named f · w hw)
  · obtain ⟨f, hf, hname, hr⟩ := hfrom.required g hg hr
    rw [← hname]
    exact (List.mem_append.mp hf).elim (h.required f · hr) (h'.required f · hr)
  · -- a name that no merged field has, no field of the two records has
    have hno' : ∀ f ∈ fields ++ more, f.name ≠ name := fun f hf => by
      obtain ⟨g, hg, hname⟩ := hfrom.name f hf
      exact hname ▸ hno g hg
    cases trailer with
    | some t =>
      cases hn
      exact h.further node rfl name w hw fun f hf => hno' f (List.mem_append_left _ hf)
    | none => exact h'.further node hn name w hw fun f hf => hno' f (List.mem_append_right _ hf)

/-- Fields of which some are made required by name. -/
theorem mem_of_requireFields {names : List Value}
    (hr : Canon.requireFields fields names = .ok merged) (hg : g ∈ merged) :
    ∃ f ∈ fields, f.name = g.name ∧ f.node = g.node ∧
      (g.required = true → f.required = true ∨ .text g.name ∈ names) := by
  unfold Canon.requireFields at hr
  split at hr
  · cases hr
    obtain ⟨f, hf, rfl⟩ := List.mem_map.mp hg
    refine ⟨f, hf, ?_⟩
    split
    · next hany =>
      obtain ⟨name, hname, htext⟩ := List.any_eq_true.mp hany
      exact ⟨rfl, rfl, fun _ => .inr (Value.eq_text_of_isText htext ▸ hname)⟩
    · exact ⟨rfl, rfl, .inl⟩
  · cases hr

theorem forall_node_of_requireFields {names : List Value} {P : Shape → Prop}
    (hr : Canon.requireFields fields names = .ok merged) (hf : ∀ f ∈ fields, P f.node) :
    ∀ g ∈ merged, P g.node := by
  intro g hg
  obtain ⟨f, hmem, -, hnode, -⟩ := mem_of_requireFields hr hg
  exact hnode ▸ hf f hmem

theorem exists_of_requireFields {names : List Value}
    (hr : Canon.requireFields fields names = .ok merged) (hf : f ∈ fields) :
    ∃ g ∈ merged, g.name = f.name := by
  unfold Canon.requireFields at hr
  split at hr
  · cases hr
    exact ⟨_, List.mem_map_of_mem hf, by split <;> rfl⟩
  · cases hr

/-- A value that has the entries that are asked for has the fields that are made required. -/
theorem Fits.require {names : List Value} (h : Fits key definitions fields trailer v)
    (hr : Canon.requireFields fields names = .ok merged)
    (hn : ∀ name, .text name ∈ names → ∃ w, v.HasEntry name w) :
    Fits key definitions merged trailer v := by
  refine ⟨fun g hg w hw => ?_, fun g hg hreq => ?_, fun node ht name w hw hno => ?_⟩
  · obtain ⟨f, hf, hname, hnode, -⟩ := mem_of_requireFields hr hg
    exact hnode ▸ h.named f hf w (hname ▸ hw)
  · obtain ⟨f, hf, hname, -, hreq'⟩ := mem_of_requireFields hr hg
    exact (hreq' hreq).elim (fun hr => hname ▸ h.required f hf hr) (hn g.name)
  · refine h.further node ht name w hw fun f hf => ?_
    obtain ⟨g, hg, hname⟩ := exists_of_requireFields hr hf
    exact hname ▸ hno g hg

end Definitions

end RouteStubs
