import RouteStubs.Proofs.Distinct
import RouteStubs.Proofs.Renamed.Value
import RouteStubs.Shape.Canonical

/-!
# Other identities for the sources of a shape

A shape keeps the identity of the mapping that each record was read from, and a format of the document
may hold mappings too. With other identities a shape is the same as far as the rules see: what is
equal stays equal, what leads to a record still does, and the same field tells variants apart.

## Main definitions

* `Shape.rename f`: the shape with the identities that `f` gives.
* `Definitions.rename f`: definitions with other identities in their shapes.

## Main statements

* `Shape.same_rename`, `Shape.distinct_rename`, `Shape.orNull_rename`: what the rules see of shapes.
* `Shape.discriminator?_rename`: the field that tells variants apart.
-/

namespace RouteStubs

/-- The source with the identity that `f` gives. -/
def Source.rename (f : Nat → Nat) (s : Source) : Source := ⟨f s.origin, s.form⟩

namespace Shape

mutual

/-- The shape with the identities that `f` gives to its sources and to the mappings in it. -/
def rename (f : Nat → Nat) : Shape → Shape
  | .primitive kind format => .primitive kind (format.rename f)
  | .record fields trailer description source =>
    .record (renameFields f fields) (renameTrailer f trailer) description
      (source.map (Source.rename f))
  | .array element => .array (rename f element)
  | .union variants discriminator => .union (renameVariants f variants) discriminator
  | .enum values => .enum values
  | .handle target => .handle target
  | .unknown => .unknown

/-- The fields of a record, with other identities. -/
def renameFields (f : Nat → Nat) : List (Field Shape) → List (Field Shape)
  | [] => []
  | ⟨name, node, required, description⟩ :: rest =>
    ⟨name, rename f node, required, description⟩ :: renameFields f rest

/-- The trailer of a record, with other identities. -/
def renameTrailer (f : Nat → Nat) : Option Shape → Option Shape
  | none => none
  | some node => some (rename f node)

/-- The variants of a union, with other identities. -/
def renameVariants (f : Nat → Nat) : List Shape → List Shape
  | [] => []
  | node :: rest => rename f node :: renameVariants f rest

end

/-- A field with other identities in its shape. -/
def renameField (f : Nat → Nat) (g : Field Shape) : Field Shape := { g with node := g.node.rename f }

variable (f : Nat → Nat)

theorem renameFields_eq (fields : List (Field Shape)) :
    renameFields f fields = fields.map (renameField f) := by
  induction fields with
  | nil => rfl
  | cons g rest ih => rw [renameFields, ih, List.map_cons, renameField]

theorem renameTrailer_eq (trailer : Option Shape) :
    renameTrailer f trailer = trailer.map (rename f) := by
  cases trailer <;> rfl

theorem renameVariants_eq (variants : List Shape) :
    renameVariants f variants = variants.map (rename f) := by
  induction variants with
  | nil => rfl
  | cons node rest ih => rw [renameVariants, ih, List.map_cons]

@[simp] theorem rename_primitive (kind : Kind) (format : Value) :
    (primitive kind format).rename f = .primitive kind (format.rename f) := rfl

@[simp] theorem rename_record (fields : List (Field Shape)) (trailer : Option Shape)
    (description : String) (source : Option Source) :
    (record fields trailer description source).rename f =
      .record (fields.map (renameField f)) (trailer.map (rename f)) description
        (source.map (Source.rename f)) := by
  rw [rename, renameFields_eq, renameTrailer_eq]

@[simp] theorem rename_array (element : Shape) :
    (array element).rename f = .array (element.rename f) := rfl

@[simp] theorem rename_union (variants : List Shape) (discriminator : Option String) :
    (union variants discriminator).rename f = .union (variants.map (rename f)) discriminator := by
  rw [rename, renameVariants_eq]

@[simp] theorem rename_enum (values : List Scalar) : (enum values).rename f = .enum values := rfl

@[simp] theorem rename_handle (target : String) : (handle target).rename f = .handle target := rfl

@[simp] theorem rename_unknown : unknown.rename f = .unknown := rfl

theorem rename_nullShape : nullShape.rename f = nullShape := rfl

mutual

theorem rename_id : ∀ node : Shape, node.rename id = node
  | .primitive _ format => by rw [rename, Value.rename_id]
  | .record fields trailer _ source => by
    rw [rename, renameFields_id fields, renameTrailer_id trailer]
    cases source <;> rfl
  | .array element => by rw [rename, rename_id element]
  | .union variants _ => by rw [rename, renameVariants_id variants]
  | .enum _ => rfl
  | .handle _ => rfl
  | .unknown => rfl

theorem renameFields_id : ∀ fields : List (Field Shape), renameFields id fields = fields
  | [] => rfl
  | ⟨_, node, _, _⟩ :: rest => by rw [renameFields, rename_id node, renameFields_id rest]

theorem renameTrailer_id : ∀ trailer : Option Shape, renameTrailer id trailer = trailer
  | none => rfl
  | some node => by rw [renameTrailer, rename_id node]

theorem renameVariants_id : ∀ variants : List Shape, renameVariants id variants = variants
  | [] => rfl
  | node :: rest => by rw [renameVariants, rename_id node, renameVariants_id rest]

end

theorem map_rename_id (nodes : List Shape) : nodes.map (rename id) = nodes := by
  rw [← renameVariants_eq, renameVariants_id]

/-! ### What is equal -/

variable {f}

mutual

@[simp] theorem same_rename : ∀ a b : Shape, (a.rename f).same (b.rename f) = a.same b
  | .primitive _ _, b => by cases b <;> simp [same]
  | .record fields trailer _ _, b => by
    cases b with
    | record others tail _ _ =>
      simp only [rename, same, sameFields_rename fields others, sameTrailer_rename trailer tail]
    | _ => simp [same]
  | .array a, b => by
    cases b with
    | array b => simp only [rename, same, same_rename a b]
    | _ => simp [same]
  | .union variants _, b => by
    cases b with
    | union others _ => simp only [rename, same, sameVariants_rename variants others]
    | _ => simp [same]
  | .enum _, b => by cases b <;> simp [same]
  | .handle _, b => by cases b <;> simp [same]
  | .unknown, b => by cases b <;> simp [same]

theorem sameFields_rename : ∀ fields others : List (Field Shape),
    sameFields (renameFields f fields) (renameFields f others) = sameFields fields others
  | [], [] => rfl
  | [], ⟨_, _, _, _⟩ :: _ => by simp only [renameFields, sameFields]
  | ⟨_, _, _, _⟩ :: _, [] => by simp only [renameFields, sameFields]
  | ⟨_, a, _, _⟩ :: rest, ⟨_, b, _, _⟩ :: others => by
    simp only [renameFields, sameFields, same_rename a b, sameFields_rename rest others]

theorem sameTrailer_rename : ∀ a b : Option Shape,
    sameTrailer (renameTrailer f a) (renameTrailer f b) = sameTrailer a b
  | none, none => by simp only [renameTrailer, sameTrailer]
  | none, some _ => by simp only [renameTrailer, sameTrailer]
  | some _, none => by simp only [renameTrailer, sameTrailer]
  | some a, some b => by simp only [renameTrailer, sameTrailer, same_rename a b]

theorem sameVariants_rename : ∀ variants others : List Shape,
    sameVariants (renameVariants f variants) (renameVariants f others) = sameVariants variants others
  | [], [] => rfl
  | [], _ :: _ => by simp only [renameVariants, sameVariants]
  | _ :: _, [] => by simp only [renameVariants, sameVariants]
  | a :: rest, b :: others => by
    simp only [renameVariants, sameVariants, same_rename a b, sameVariants_rename rest others]

end

mutual

@[simp] theorem isKey_rename : ∀ node : Shape, (node.rename f).isKey = node.isKey
  | .primitive _ format => Value.isKey_rename format
  | .record fields trailer _ _ => by
    rw [rename, isKey, isKey, areFieldKeys_rename fields, isTrailerKey_rename trailer]
  | .array element => by rw [rename, isKey, isKey, isKey_rename element]
  | .union variants _ => by rw [rename, isKey, isKey, areKeys_renameVariants variants]
  | .enum _ => rfl
  | .handle _ => rfl
  | .unknown => rfl

theorem areFieldKeys_rename : ∀ fields : List (Field Shape),
    areFieldKeys (renameFields f fields) = areFieldKeys fields
  | [] => rfl
  | ⟨_, node, _, _⟩ :: rest => by
    rw [renameFields, areFieldKeys, areFieldKeys, isKey_rename node, areFieldKeys_rename rest]

theorem isTrailerKey_rename : ∀ trailer : Option Shape,
    isTrailerKey (renameTrailer f trailer) = isTrailerKey trailer
  | none => rfl
  | some node => isKey_rename node

theorem areKeys_renameVariants : ∀ variants : List Shape,
    areKeys (renameVariants f variants) = areKeys variants
  | [] => rfl
  | node :: rest => by
    rw [renameVariants, areKeys, areKeys, isKey_rename node, areKeys_renameVariants rest]

end

@[simp] theorem sameVariants_map_rename (variants others : List Shape) :
    sameVariants (variants.map (rename f)) (others.map (rename f)) = sameVariants variants others := by
  rw [← renameVariants_eq, ← renameVariants_eq, sameVariants_rename]

@[simp] theorem areKeys_map_rename (variants : List Shape) :
    areKeys (variants.map (rename f)) = areKeys variants := by
  rw [← renameVariants_eq, areKeys_renameVariants]

@[simp] theorem isAmong_rename (node : Shape) (others : List Shape) :
    (node.rename f).isAmong (others.map (rename f)) = node.isAmong others := by
  rw [isAmong, isAmong, List.any_map]
  exact congrArg (List.any others) (funext fun other => same_rename node other)

@[simp] theorem isNull_rename (node : Shape) : (node.rename f).isNull = node.isNull :=
  same_rename node nullShape

theorem keepNew_rename (kept nodes : List Shape) :
    keepNew same (kept.map (rename f)) (nodes.map (rename f)) =
      (keepNew same kept nodes).map (rename f) := by
  induction nodes generalizing kept with
  | nil => rfl
  | cons node rest ih =>
    have hany : (kept.map (rename f)).any (node.rename f).same = kept.any node.same :=
      isAmong_rename node kept
    rw [List.map_cons, keepNew_cons, keepNew_cons, hany, ← ih]
    split
    · rfl
    · rw [List.map_append, List.map_singleton]

theorem distinct_rename (nodes : List Shape) :
    distinct (nodes.map (rename f)) = (distinct nodes).map (rename f) := keepNew_rename [] nodes

theorem orNull_rename (node : Shape) : (node.rename f).orNull = node.orNull.rename f := by
  have hplain : (if (node.rename f).isNull then node.rename f
      else union [node.rename f, nullShape] none) =
      (if node.isNull then node else union [node, nullShape] none).rename f := by
    rw [isNull_rename]
    split
    · rfl
    · rw [rename_union, List.map_cons, List.map_singleton, rename_nullShape]
  cases node with
  | unknown => rfl
  | union variants discriminator =>
    have hamong : nullShape.isAmong (variants.map (rename f)) = nullShape.isAmong variants :=
      isAmong_rename nullShape variants
    rw [rename_union, orNull, orNull, hamong]
    split
    · rw [rename_union]
    · rw [rename_union, List.map_append, List.map_singleton, rename_nullShape]
  | _ => exact hplain

@[simp] theorem field?_rename (fields : List (Field Shape)) (name : String) :
    field? (fields.map (renameField f)) name = (field? fields name).map (renameField f) := by
  unfold field?
  rw [List.find?_map]
  rfl

end Shape

/-! ### Definitions -/

/-- Definitions with other identities in their shapes. -/
def Definitions.rename (f : Nat → Nat) (definitions : Definitions) : Definitions :=
  List.map (fun d => (d.1, d.2.rename f)) definitions

namespace Definitions

open Shape

variable {f : Nat → Nat} (definitions : Definitions)

theorem lookup_map {α β : Type} (g : α → β) (pairs : List (String × α)) (name : String) :
    (pairs.map fun e => (e.1, g e.2)).lookup name = (pairs.lookup name).map g := by
  induction pairs with
  | nil => rfl
  | cons e rest ih =>
    rw [List.map_cons, List.lookup_cons, List.lookup_cons]
    split
    · rfl
    · exact ih

theorem find?_rename (name : String) :
    (definitions.rename f).find? name = (definitions.find? name).map (Shape.rename f) :=
  lookup_map _ definitions name

theorem followIn_rename {find find' : String → Option Shape}
    (h : ∀ name, find' name = (find name).map (Shape.rename f)) (steps : Nat) (node : Shape) :
    followIn find' steps (node.rename f) = (followIn find steps node).map (Shape.rename f) := by
  induction steps generalizing node with
  | zero => cases node <;> simp [followIn]
  | succ steps ih =>
    cases node with
    | handle target =>
      rw [rename_handle, followIn, followIn, h]
      cases find target with
      | none => rfl
      | some found => exact ih found
    | _ => simp [followIn]

theorem dereference_rename (node : Shape) :
    (definitions.rename f).dereference (node.rename f) =
      (definitions.dereference node).map (Shape.rename f) := by
  unfold dereference
  rw [rename, List.length_map]
  exact followIn_rename (find?_rename definitions) _ node

theorem singleValue?_rename (node : Shape) :
    (definitions.rename f).singleValue? (node.rename f) = definitions.singleValue? node := by
  unfold singleValue?
  rw [dereference_rename]
  rcases definitions.dereference node with _ | found
  · rfl
  · cases found <;> simp

theorem fields?_rename (node : Shape) : (definitions.rename f).fields? (node.rename f) =
    (definitions.fields? node).map (List.map (renameField f)) := by
  unfold fields?
  rw [dereference_rename]
  rcases definitions.dereference node with _ | found
  · rfl
  · cases found <;> simp

theorem tag?_rename (name : String) (fields : List (Field Shape)) :
    (definitions.rename f).tag? name (fields.map (renameField f)) = definitions.tag? name fields := by
  unfold tag?
  rw [field?_rename, Option.bind_map]
  congr 1
  funext g
  exact singleValue?_rename definitions g.node

theorem tells_rename (name : String) (records : List (List (Field Shape))) :
    (definitions.rename f).tells name (records.map (List.map (renameField f))) =
      definitions.tells name records := by
  unfold tells
  rw [List.mapM_map]
  congr 2
  funext fields
  exact tag?_rename definitions name fields

theorem mapM_fields?_rename (variants : List Shape) :
    (variants.map (Shape.rename f)).mapM (definitions.rename f).fields? =
      (variants.mapM definitions.fields?).map (List.map (List.map (renameField f))) := by
  induction variants with
  | nil => rfl
  | cons node rest ih =>
    rw [List.map_cons, List.mapM_cons, List.mapM_cons, fields?_rename, ih]
    cases definitions.fields? node with
    | none => rfl
    | some fields => cases rest.mapM definitions.fields? <;> rfl

end Definitions

theorem Shape.discriminator?_rename {f : Nat → Nat} (definitions : Definitions)
    (variants : List Shape) (explicit : Value) :
    Shape.discriminator? (definitions.rename f) (variants.map (Shape.rename f)) (explicit.rename f) =
      Shape.discriminator? definitions variants explicit := by
  unfold Shape.discriminator?
  rw [Definitions.mapM_fields?_rename]
  rcases variants.mapM definitions.fields? with _ | records
  · rfl
  · cases records with
    | nil => rfl
    | cons first others =>
      simp only [Option.map_some, List.map_cons, List.map_map]
      congr 1
      · funext name
        exact Definitions.tells_rename definitions name (first :: others)
      · congr 1
        cases explicit <;> simp

end RouteStubs
