import RouteStubs.Proofs.Renamed.Walk
import RouteStubs.Proofs.Schema.Kept

/-!
# A second walk alongside

The rules of a schema, other than that of references, look at the definitions only to see where
shapes lead. So a second walk that sees the same in its own state goes along with the first one, and
what remains to be said about it is what it does where a reference is met.

## Main definitions

* `Canon.walkBy`: the walk with another rule of references.
* `Canon.Company`: how the states of two walks belong together.
* `Canon.Company.Along`: a step of the second walk goes along with one of the first.
* `Canon.Company.logic`: this as a logic of walks.
* `Canon.Company.Attends`: the second walk goes along where references are met.

## Main statements

* `Canon.Company.walkBy_along`: walks go along with each other if they do where they meet references.
-/

namespace RouteStubs.Canon

open Naming Shape

variable {α β : Type} {f : String → String} {document : Value} {lost : String → Prop}
  {last : Definitions} {p p' : Progress Unit} {node : Shape} {nodes : List Shape}

/-! ### Shapes that are found -/

theorem handles_leads (hl : Leads f document p p') (h : node.Handles (Knows f lost p)) :
    node.Handles (Knows f lost p') :=
  h.imp fun _ => Knows.leads hl

theorem Found.leads (hl : Leads f document p p') (h : Found f lost node p) : Found f lost node p' :=
  ⟨handles_leads hl h.1, fun name heq => (h.2 name heq).leads hl⟩

theorem found_unknown : Found f lost .unknown p :=
  found_of_isLeaf trivial fun _ heq => by cases heq

/-- A handle is what a schema inside reads as, if there is no reference. -/
theorem exists_of_tied_handle {tie : Tie} {points : String → String → Prop}
    {definitions : Definitions} {sub : Value → Shape → Prop} {origin : Nat} {entries : Entries}
    {name : String} (hr : ∀ ref, ruleOf entries ≠ .reference ref)
    (h : TiedEntries tie points definitions sub origin entries (.handle name)) :
    ∃ v, sub v (.handle name) := by
  unfold TiedEntries ReadsEntries at h
  cases hrule : ruleOf entries with
  | reference ref => exact absurd hrule (hr ref)
  | composition members =>
    simp only [hrule] at h
    obtain ⟨listed, -, composed⟩ := h
    cases composed with
    | beside _ record => cases record
    | passes _ head => exact ⟨_, head⟩
  | alternatives members =>
    simp only [hrule] at h
    unfold TiedAlternatives at h
    split at h
    · obtain ⟨nodes, hn, hunion⟩ := h
      unfold TiedUnion at hunion
      split at hunion
      · next only hone =>
        have hm : only ∈ nodes := mem_of_mem_distinct (hone ▸ List.mem_singleton_self only)
        obtain ⟨v, -, hv⟩ := exists_mem_of_forall₂ hn.flip hm
        exact ⟨v, hunion ▸ hv⟩
      · obtain ⟨_, hnode, -⟩ := hunion
        cases hnode
    · cases h
  | values listed =>
    simp only [hrule] at h
    exact absurd h.symm (enumeration_ne_handle listed)
  | typed type =>
    simp only [hrule] at h
    exact absurd trivial h.not_isDirect

/-- What the rules make of shapes that are found is found, if the handles in definitions are known. -/
theorem Sustained.found_of_tied {tie : Tie} {origin : Nat} {entries : Entries}
    (hk : Sustained f document lost p) (hr : ∀ ref, ruleOf entries ≠ .reference ref)
    (h : TiedEntries tie (fun name _ => Knows f lost p name) p.definitions
      (fun _ node => Found f lost node p) origin entries node) : Found f lost node p := by
  constructor
  · have hclosed := ruleClosed_handles (fun name (_ : String) (h : Knows f lost p name) => h) tie
      p.definitions fun _ node => Found f lost node p
    exact h.throughout hclosed hk.handles trivial fun _ _ _ hfound => hfound.1
  · rintro name rfl
    obtain ⟨_, hfound⟩ := exists_of_tied_handle hr h
    exact hfound.2 name rfl

/-- What a shape leads to has handles that are known, as the definitions do. -/
theorem Sustained.handles_of_dereference {found : Shape} (hk : Sustained f document lost p)
    (h : node.Handles (Knows f lost p)) (hf : p.definitions.dereference node = some found) :
    found.Handles (Knows f lost p) :=
  throughout_of_dereference hk.handles h hf

/-! ### The second walk -/

/-- The shape of a mapping, with another rule of references. -/
def ofEntriesBy (refer : Value → Step (Progress Unit) Shape) (deeper : Deeper Unit)
    (context : String) (origin : Nat) (entries : Entries) : Step (Progress Unit) Shape :=
  match entries.text? "$ref" with
  | some ref => refer ref
  | none => ofEntries (namedBy id) deeper context origin entries

/-- One level of the walk, with another rule of references. -/
def levelBy (refer : Value → Step (Progress Unit) Shape) (deeper : Deeper Unit) : Deeper Unit :=
  fun context schema =>
    match schema with
    | .mapping origin entries => do
      let node ← ofEntriesBy refer deeper context origin entries
      match Entries.text? entries "nullable" with
      | some (.scalar (.bool true)) => pure node.orNull
      | _ => pure node
    | _ => pure .unknown

/-- The walk with another rule of references. -/
def walkBy (refer : Deeper Unit → Value → Step (Progress Unit) Shape) : (steps : Nat) → Deeper Unit
  | 0, _, _ => throw (.defect .outOfSteps)
  | steps + 1, context, schema =>
    levelBy (refer (walkBy refer steps)) (walkBy refer steps) context schema

theorem levelBy_reference (f : String → String) (deeper : Deeper Unit) :
    levelBy (reference (namedBy f) deeper) deeper = level (namedBy f) deeper := by
  funext context schema
  cases schema with
  | mapping origin entries =>
    have hrule : ofEntriesBy (reference (namedBy f) deeper) deeper context origin entries =
        ofEntries (namedBy f) deeper context origin entries := by
      unfold ofEntriesBy ofEntries
      cases Entries.text? entries "$ref" <;> rfl
    rw [levelBy, hrule]
    rfl
  | _ => rfl

/-- With the rule of references it is the walk. -/
theorem walkBy_reference (f : String → String) (steps : Nat) :
    walkBy (reference (namedBy f)) steps = shape (namedBy f) steps := by
  induction steps with
  | zero => rfl
  | succ steps ih =>
    rw [shape_succ, ← levelBy_reference, ← ih]
    rfl

variable (f document lost) in
/-- How the states of a second walk belong to those of a first one, of which these are the
definitions at the end. The second walk sees shapes lead where they do in the first one. -/
structure Company (last : Definitions) where
  /-- The states while both walks go on. -/
  Side : Progress Unit → Progress Unit → Prop
  /-- The states when both walks have failed. -/
  Fallen : Progress Unit → Progress Unit → Prop
  fails : ∀ {p t}, Sustained f document lost p → p.definitions = last → Side p t → Fallen p t
  sees : ∀ {p t node}, Sustained f document lost p → p.definitions <+: last → Side p t →
    node.Handles (Knows f lost p) → t.definitions.dereference node = p.definitions.dereference node
  defers : ∀ {p t} variants explicit, Side p t →
    Side (p.defer variants explicit) (t.defer variants explicit)

namespace Company

variable (C : Company f document lost last)

/-- The first step leads on, and if it ends before the last definitions or fails with them, then the
second one does the same on its side. -/
def Along (p : Progress Unit) (step step' : Step (Progress Unit) α)
    (Q : α → Progress Unit → Prop) : Prop :=
  Sustained f document lost p →
    step.Ends p
      (fun a p' => (Leads f document p p' ∧ Sustained f document lost p' ∧ Q a p') ∧
        ∀ t, C.Side p t → p'.definitions <+: last →
          ∃ t', step'.runFrom t = (.ok a, t') ∧ C.Side p' t')
      fun fault p' => (Leads f document p p' ∧ Pending f p') ∧
        ∀ t, C.Side p t → p'.definitions = last →
          ∃ t', step'.runFrom t = (.error fault, t') ∧ C.Fallen p' t'

variable {C} {step step' : Step (Progress Unit) α} {Q : α → Progress Unit → Prop}
  {R : β → Progress Unit → Prop}

theorem Along.keeps (h : C.Along p step step' Q) : Keeps f document lost p step Q := fun hk =>
  (h hk).imp (fun _ _ h => h.1) fun _ _ h => h.1

/-! ### Ways of putting steps together -/

theorem along_pure {a : α} (h : Q a p) : C.Along p (pure a) (pure a) Q := fun hk =>
  ⟨⟨.refl p, hk, h⟩, fun t hs _ => ⟨t, rfl, hs⟩⟩

theorem along_throw (fault : Fault) : C.Along p (throw fault) (throw fault) Q := fun hk =>
  ⟨⟨.refl p, hk.pending⟩, fun t hs hlast => ⟨t, rfl, C.fails hk hlast hs⟩⟩

theorem Along.bind {next next' : α → Step (Progress Unit) β} (h : C.Along p step step' Q)
    (hn : ∀ a p', Leads f document p p' → Q a p' → C.Along p' (next a) (next' a) R) :
    C.Along p (step >>= next) (step' >>= next') R := by
  intro hk
  rw [Step.ends_bind]
  refine (h hk).imp ?_ ?_
  · rintro a p' ⟨⟨hl, hk', hq⟩, hside⟩
    refine (hn a p' hl hq hk').imp ?_ ?_
    · rintro b q ⟨⟨hl', hk'', hr⟩, hside'⟩
      refine ⟨⟨hl.trans hl', hk'', hr⟩, fun t hs hlast => ?_⟩
      obtain ⟨t', hrun, hs'⟩ := hside t hs (hl'.isPrefix.trans hlast)
      rw [Step.runFrom_bind, hrun]
      exact hside' t' hs' hlast
    · rintro fault q ⟨⟨hl', hpending⟩, hside'⟩
      refine ⟨⟨hl.trans hl', hpending⟩, fun t hs hlast => ?_⟩
      obtain ⟨t', hrun, hs'⟩ := hside t hs (hlast ▸ hl'.isPrefix)
      rw [Step.runFrom_bind, hrun]
      exact hside' t' hs' hlast
  · rintro fault p' ⟨hl, hside⟩
    refine ⟨hl, fun t hs hlast => ?_⟩
    obtain ⟨t', hrun, hs'⟩ := hside t hs hlast
    exact ⟨t', by rw [Step.runFrom_bind, hrun], hs'⟩

/-- A weaker outcome, which may go by what holds of the state at any time. -/
theorem Along.imp {Q' : α → Progress Unit → Prop} (h : C.Along p step step' Q)
    (hn : ∀ a p', Sustained f document lost p' → Q a p' → Q' a p') : C.Along p step step' Q' := by
  intro hk
  apply (h hk).imp_ok
  rintro a p' ⟨⟨hl, hk', hq⟩, hside⟩
  exact ⟨⟨hl, hk', hn a p' hk' hq⟩, hside⟩

/-- Steps that look at their states first, and see the same. -/
theorem along_get {next next' : Progress Unit → Step (Progress Unit) α}
    (h : Sustained f document lost p → C.Along p (next p) (next' p) Q)
    (hsame : ∀ t, Sustained f document lost p → p.definitions <+: last → C.Side p t →
      next' t = next' p) :
    C.Along p (get >>= next) (get >>= next') Q := by
  intro hk
  have hends := h hk hk
  change (next p).Ends p _ _
  refine hends.imp ?_ ?_
  · rintro a p' ⟨hl, hside⟩
    refine ⟨hl, fun t hs hlast => ?_⟩
    have heq := hsame t hk (hl.1.isPrefix.trans hlast) hs
    change ∃ t', (next' t).runFrom t = _ ∧ _
    rw [heq]
    exact hside t hs hlast
  · rintro fault p' ⟨hl, hside⟩
    refine ⟨hl, fun t hs hlast => ?_⟩
    have heq := hsame t hk (hlast ▸ hl.1.isPrefix) hs
    change ∃ t', (next' t).runFrom t = _ ∧ _
    rw [heq]
    exact hside t hs hlast

variable (C) in
/-- Going along is a logic of walks. -/
def logic : WalkLogic Unit where
  Leads := Leads f document
  Beside p t := Sustained f document lost p ∧ p.definitions <+: last ∧ C.Side p t
  Goes := C.Along
  trans := Leads.trans
  isPrefix := Leads.isPrefix
  rests := along_pure
  refuses _ := along_throw _
  continues := Along.bind
  looks h hsame := along_get (fun _ => h) fun t hk hlast hs => hsame t ⟨hk, hlast, hs⟩

theorem tracks_found : C.logic.Tracks fun p _ node => Found f lost node p where
  lasts hl _ _ := Found.leads hl
  seen ht hfound := C.sees ht.1 ht.2.1 ht.2.2 hfound.1

/-! ### Unions -/

variable (C) in
/-- Walks through the schemas inside go along with each other. -/
def AlongAll (deeper deeper' : Deeper Unit) : Prop :=
  ∀ context v p, C.Along p (deeper context v) (deeper' context v) (Found f lost)

variable {deeper deeper' : Deeper Unit} {context : String} {entries : Entries}

theorem sees_fields (hk : Sustained f document lost p) (hlast : p.definitions <+: last)
    {t : Progress Unit} (hs : C.Side p t) (h : node.Handles (Knows f lost p)) :
    t.definitions.fields? node = p.definitions.fields? node := by
  rw [Definitions.fields?, Definitions.fields?, C.sees hk hlast hs h]

/-- The discriminator is looked for in records and in the values of their fields, and they are where
they are in the first walk. -/
theorem sees_discriminator (hk : Sustained f document lost p) (hlast : p.definitions <+: last)
    {t : Progress Unit} (hs : C.Side p t) (h : ∀ v ∈ nodes, v.Handles (Knows f lost p))
    (explicit : Value) :
    discriminator? t.definitions nodes explicit = discriminator? p.definitions nodes explicit := by
  refine discriminator?_congr (fun v hv => sees_fields hk hlast hs (h v hv)) ?_ explicit
  intro v hv fields hfields g hg
  have hnode : g.node.Handles (Knows f lost p) := by
    unfold Definitions.fields? at hfields
    split at hfields
    · next hrecord =>
      cases hfields
      exact (below_record.mp (hk.handles_of_dereference (h v hv) hrecord).below).1 g hg
    · cases hfields
  rw [Definitions.singleValue?, Definitions.singleValue?, C.sees hk hlast hs hnode]

theorem defer_along (variants : List Shape) (explicit : Value) (p : Progress Unit) :
    C.Along p (modify (Progress.defer variants explicit))
      (modify (Progress.defer variants explicit)) fun _ _ => True := by
  intro hk
  obtain ⟨deferred, hdefer⟩ := Course.exists_deferred variants explicit p
  have hsustained : Leads f document p (p.defer variants explicit) ∧
      Sustained f document lost (p.defer variants explicit) :=
    hk.of_eq (by rw [hdefer]) (by rw [hdefer]) (by rw [hdefer]; exact hk.recalls)
  exact ⟨⟨hsustained.1, hsustained.2, trivial⟩,
    fun t hs _ => ⟨_, rfl, C.defers variants explicit hs⟩⟩

theorem unionOf_along {variants : List Shape} (explicit : Value)
    (hv : ∀ v ∈ variants, Found f lost v p) :
    C.Along p (unionOf variants explicit) (unionOf variants explicit) fun node _ =>
      ∃ discriminator, node = .union variants discriminator := by
  refine along_get (fun _ => ?_) fun t hk hlast hs => ?_
  · dsimp only
    split
    · split
      · exact along_throw _
      · exact (defer_along variants explicit p).bind fun _ _ _ _ => along_pure ⟨_, rfl⟩
    · exact along_pure ⟨_, rfl⟩
  · have hsees : ∀ v ∈ variants, t.definitions.dereference v = p.definitions.dereference v :=
      fun v hm => C.sees hk hlast hs (hv v hm).1
    have hany : (variants.any fun v => (t.definitions.dereference v).isNone) =
        variants.any fun v => (p.definitions.dereference v).isNone := by
      rw [Bool.eq_iff_iff, List.any_eq_true, List.any_eq_true]
      exact exists_congr fun v => and_congr_right fun hm => by rw [hsees v hm]
    simp only [sees_discriminator hk hlast hs (fun v hm => (hv v hm).1), hany]

/-! ### Schemas -/

theorem ofEntriesBy_along (hd : C.AlongAll deeper deeper')
    {refer refer' : Value → Step (Progress Unit) Shape} {origin : Nat}
    (href : ∀ ref p, C.Along p (refer ref) (refer' ref) (Found f lost)) (p : Progress Unit) :
    C.Along p (ofEntriesBy refer deeper context origin entries)
      (ofEntriesBy refer' deeper' context origin entries) (Found f lost) := by
  unfold ofEntriesBy
  cases hnone : entries.text? "$ref" with
  | some ref => exact href ref p
  | none =>
    have hr : ∀ ref, ruleOf entries ≠ .reference ref := by
      intro ref hrule
      have hkey := key_of_ruleOf entries
      rw [hrule, hnone] at hkey
      cases hkey
    have hentries : C.Along p (ofEntries (namedBy id) deeper context origin entries)
        (ofEntries (namedBy id) deeper' context origin entries) fun node p' =>
          TiedEntries (fun _ _ _ _ => True) (fun name _ => Knows f lost p' name) p'.definitions
            (fun _ node => Found f lost node p') origin entries node := by
      apply WalkLogic.ofEntries_goes (L := C.logic) tracks_found hr
      · exact fun v _ context p => hd context v p
      · exact fun _ _ _ _ _ _ _ fault _ => along_throw fault
      · intro listed p nodes _ hn hseveral
        have hv : ∀ v ∈ distinct nodes, Found f lost v p := fun v hv => by
          obtain ⟨_, -, hfound⟩ := exists_mem_of_forall₂ hn.flip (mem_of_mem_distinct hv)
          exact hfound
        refine (unionOf_along _ hv).imp ?_
        rintro node p' - ⟨discriminator, hnode⟩
        exact (tiedUnion_iff_of_several hseveral).mpr ⟨discriminator, hnode, trivial⟩
    exact hentries.imp fun _ _ hk => hk.found_of_tied hr

/-! ### References -/

/-- A step that leads on goes along with another one if that does the same on its side. -/
theorem along_of_keeps (h : Keeps f document lost p step Q)
    (hok : ∀ a p' t, Sustained f document lost p → C.Side p t →
      step.runFrom p = (.ok a, p') → p'.definitions <+: last →
      ∃ t', step'.runFrom t = (.ok a, t') ∧ C.Side p' t')
    (herror : ∀ fault p' t, Sustained f document lost p → C.Side p t →
      step.runFrom p = (.error fault, p') → p'.definitions = last →
      ∃ t', step'.runFrom t = (.error fault, t') ∧ C.Fallen p' t') :
    C.Along p step step' Q := by
  intro hk
  refine ((h hk).and (Step.ends_self _ _)).imp ?_ ?_
  · rintro a p' ⟨hkeeps, hrun⟩
    exact ⟨hkeeps, fun t hs => hok a p' t hk hs hrun⟩
  · rintro fault p' ⟨hkeeps, hrun⟩
    exact ⟨hkeeps, fun t hs => herror fault p' t hk hs hrun⟩

variable (C) in
/-- What the second walk does where it meets a reference: the same as the first one, whatever that
is. -/
structure Attends (deeper : Deeper Unit) (refer : Value → Step (Progress Unit) Shape) : Prop where
  /-- The reference leads nowhere. -/
  refused : ∀ {p t ref fault}, Sustained f document lost p → p.definitions = last → C.Side p t →
    Resolver.answer document ref = .error fault →
    ∃ t', (refer ref).runFrom t = (.error fault, t') ∧ C.Fallen p t'
  /-- The reference is defined or in progress. -/
  met : ∀ {p t s found}, Sustained f document lost p → p.definitions <+: last → C.Side p t →
    Resolver.target document s = .ok found → Met f p s →
    ∃ t', (refer (.text s)).runFrom t = (.ok (.handle (f s)), t') ∧ C.Side (looked p (.text s)) t'
  /-- The reference is expanded, and its target has a shape. -/
  done : ∀ {p t s found node q}, Sustained f document lost p → C.Side p t →
    Resolver.target document s = .ok found → ¬ Met f p s →
    (deeper (f s) found).runFrom (underway p s) = (.ok node, q) → Sustained f document lost q →
    Leads f document (underway p s) q → (finished q (f s) node).definitions <+: last →
    ∃ t', (refer (.text s)).runFrom t = (.ok (.handle (f s)), t') ∧ C.Side (finished q (f s) node) t'
  /-- The reference is expanded, and its target is refused. -/
  failed : ∀ {p t s found fault q}, Sustained f document lost p → C.Side p t →
    Resolver.target document s = .ok found → ¬ Met f p s →
    (deeper (f s) found).runFrom (underway p s) = (.error fault, q) → Pending f q →
    Leads f document (underway p s) q → q.definitions = last →
    ∃ t', (refer (.text s)).runFrom t = (.error fault, t') ∧ C.Fallen (givenUp q) t'

theorem reference_along (hf : Function.Injective f) {steps : Nat}
    {refer : Value → Step (Progress Unit) Shape}
    (hd : KeepsAll f document lost (shape (namedBy f) steps))
    (hr : C.Attends (shape (namedBy f) steps) refer) (ref : Value) (p : Progress Unit) :
    C.Along p (reference (namedBy f) (shape (namedBy f) steps) ref) (refer ref) (Found f lost) := by
  refine along_of_keeps (reference_keeps hf hd ref) ?_ ?_
  · intro handle p' t hk hs hrun hlast
    cases Refers.of_run hk.recalls hrun with
    | met htarget hm => exact hr.met hk hlast hs htarget hm
    | done htarget hm hinner =>
      obtain ⟨hl, hq, -⟩ := (hd _ _ _ (hk.underway htarget hm)).of_ok hinner
      exact hr.done hk hs htarget hm hinner hq hl hlast
  · intro fault p' t hk hs hrun hlast
    cases Refers.of_run hk.recalls hrun with
    | refused hrefused => exact hr.refused hk hlast hs hrefused
    | failed htarget hm hinner =>
      obtain ⟨hl, hq⟩ := (hd _ _ _ (hk.underway htarget hm)).of_error hinner
      exact hr.failed hk hs htarget hm hinner hq hl hlast

/-! ### Walks -/

theorem levelBy_along (hd : C.AlongAll deeper deeper')
    {refer refer' : Value → Step (Progress Unit) Shape}
    (href : ∀ ref p, C.Along p (refer ref) (refer' ref) (Found f lost)) :
    C.AlongAll (levelBy refer deeper) (levelBy refer' deeper') := by
  intro context v p
  cases v with
  | mapping origin entries =>
    refine (ofEntriesBy_along hd href p).bind fun plain p₁ _ hfound => ?_
    split
    · exact along_pure hfound.orNull
    · exact along_pure hfound
  | _ => exact along_pure found_unknown

/-- The walks go along with each other if the second one goes along where references are met, one
level after the other. -/
theorem walkBy_along (hf : Function.Injective f)
    {refer : Deeper Unit → Value → Step (Progress Unit) Shape}
    (href : ∀ steps, C.AlongAll (shape (namedBy f) steps) (walkBy refer steps) →
      C.Attends (shape (namedBy f) steps) (refer (walkBy refer steps)))
    (steps : Nat) : C.AlongAll (shape (namedBy f) steps) (walkBy refer steps) := by
  induction steps with
  | zero => exact fun _ _ _ => along_throw _
  | succ steps ih =>
    rw [shape_succ, ← levelBy_reference]
    exact levelBy_along ih
      (reference_along hf (fun context v p => (ih context v p).keeps) (href steps ih))

end Company

end RouteStubs.Canon
