import StreamPipeline.Proofs.Yaml.Documents
import StreamPipeline.Yaml.Decode

/-!
# Reading values out of written trees

`Decoder.Finds d depth t a` says that `d` reads `a` out of what `t` says where `depth` collections
may still be entered, and pays for nothing. There is one lemma for each way to build a decoder, and
one for each way to read a field of a record (`Fields.required_eq`, `Fields.withDefault_eq`,
`Fields.optional_eq`), so that a decoder is followed along its own definition. What is found in a
tree is what its text is read as (`Decoder.Finds.single_render`, `Decoder.several_renderAll`).
`Decoder.Refuses d depth t` says the opposite: with fewer than `depth` collections to enter, `d`
reads nothing out of `t`.
-/

namespace StreamPipeline.Yaml

/-- A decoder reads a value out of what a tree says. -/
def Decoder.Finds {α : Type} (d : Decoder α) (depth : Nat) (t : Tree) (a : α) : Prop :=
  ∀ s : Scope, depth ≤ s.depth → d s t.node = pure a

namespace Decoder

variable {α β : Type} {d : Decoder α} {depth : Nat} {t : Tree} {a : α}

/-! ### Decoders -/

theorem settle_node (s : Scope) (t : Tree) : settle s t.node = pure t.node := by
  cases t <;> rfl

theorem Finds.mono {more : Nat} (h : d.Finds depth t a) (hle : depth ≤ more) :
    d.Finds more t a :=
  fun s hs => h s (Nat.le_trans hle hs)

theorem text_textNode (s : Scope) (x : String) : Decoder.text s (textNode x) = pure x := by
  rw [Decoder.text, show textNode x = (Tree.text x).node from by rw [Tree.node], settle_node]
  rfl

theorem finds_text (x : String) : Decoder.text.Finds depth (.text x) x := by
  intro s _
  rw [Tree.node, text_textNode]

/-- No plain text says that there is nothing. -/
theorem not_void {x : String} (h : (styleOf x.toList == .plain) = true) :
    x ≠ "" ∧ isNull x.toList = false := by
  obtain ⟨hwords, -⟩ := of_styleOf_plain (beq_iff_eq.1 h)
  simp only [saysOther, Bool.or_eq_false_iff] at hwords
  refine ⟨?_, hwords.1.1.1.1.1.2⟩
  rintro rfl
  exact Bool.false_ne_true hwords.1.1.1.1.1.1.symm

theorem finds_optional (h : d.Finds depth t a) : d.optional.Finds depth t (some a) := by
  intro s hs
  rw [Decoder.optional, settle_node]
  cases t with
  | text x =>
      cases hp : styleOf x.toList == .plain with
      | true =>
          have hv := not_void hp
          have hd := h s hs
          simp only [Tree.node, textNode, hp] at hd ⊢
          simp [hd, hv]
      | false =>
          have hd := h s hs
          simp only [Tree.node, textNode, hp] at hd ⊢
          simp [hd]
  | list ts =>
      have hd := h s hs
      simp only [Tree.node] at hd ⊢
      simp [hd]
  | map es =>
      have hd := h s hs
      simp only [Tree.node] at hd ⊢
      simp [hd]

/-- Within a collection, one collection less may be entered. -/
theorem enter?_eq {s : Scope} (hs : depth + 1 ≤ s.depth) :
    s.enter? = some { s with depth := s.depth - 1 } := by
  rw [Scope.enter?, if_neg (by omega)]

theorem finds_list {γ : Type} {f : γ → Tree} {h : γ → α} (xs : List γ)
    (hf : ∀ x ∈ xs, d.Finds depth (f x) (h x)) :
    d.list.Finds (depth + 1) (.list (xs.map f)) (xs.map h) := by
  intro s hs
  rw [Decoder.list, settle_node, Tree.node, itemNodes_eq_map, List.map_map]
  simp only [pure_bind, enter?_eq hs]
  exact List.mapM_map_eq_pure xs fun x hx => hf x hx _ (by simp; omega)

@[simp] theorem liftM_some (a : α) : (liftM (some a) : Reading α) = pure a := rfl

theorem finds_map {γ : Type} (key : γ → String) {f : γ → Tree} {h : γ → α} (xs : List γ)
    (hf : ∀ x ∈ xs, d.Finds depth (f x) (h x)) :
    d.map.Finds (depth + 1) (.map (xs.map fun x => (key x, f x)))
      (StringMap.ofList (xs.map fun x => (key x, h x))) := by
  intro s hs
  have hpairs := List.mapM_map_eq_pure (f := fun x => ((textNode (key x), (f x).node) : Node Nat × Node Nat))
    (g := fun e => do return (← Decoder.text { s with depth := s.depth - 1 } e.1,
      ← d { s with depth := s.depth - 1 } e.2)) (h := fun x => (key x, h x)) xs
    fun x hx => by
      have hd := hf x hx { s with depth := s.depth - 1 } (show depth ≤ s.depth - 1 by omega)
      simp only [hd, text_textNode, pure_bind]
  rw [Decoder.map, settle_node, Tree.node, entryNodes_eq_map, List.map_map]
  simp only [pure_bind, enter?_eq hs, liftM_some]
  rw [show ((fun e : String × Tree => ((textNode e.1, e.2.node) : Node Nat × Node Nat)) ∘
    fun x => (key x, f x)) = fun x => (textNode (key x), (f x).node) from rfl, hpairs]
  rfl

theorem finds_word {of? : String → Option α} {w : String} (h : of? w = some a) :
    (Decoder.word of?).Finds depth (.text w) a := by
  intro s _
  rw [Decoder.word, settle_node]
  simp [Tree.node, textNode, h]

/-- The fields of a record that are present, with their nodes. -/
def fieldNodes (fields : List (String × Option Tree)) : List (String × Node Nat) :=
  fields.filterMap fun f => f.2.map fun t => (f.1, t.node)

/-- A record is read from its fields. -/
theorem record_node {read : Fields → Reading α} {fields : List (String × Option Tree)} {s : Scope}
    (hs : 0 < s.depth) : Decoder.record read s (Tree.record fields).node =
      read ⟨{ s with depth := s.depth - 1 }, fieldNodes fields⟩ := by
  have hfields := List.mapM_map_eq_pure
    (f := fun e => ((textNode e.1, e.2.node) : Node Nat × Node Nat))
    (g := fun e => do return (← Decoder.text { s with depth := s.depth - 1 } e.1, e.2))
    (h := fun e : String × Tree => (e.1, e.2.node))
    (fields.filterMap fun f => f.2.map (f.1, ·)) fun e _ => by
      simp only [text_textNode, pure_bind]
  have hnodes : (fields.filterMap fun f => f.2.map (f.1, ·)).map
      (fun e : String × Tree => ((e.1, e.2.node) : String × Node Nat)) = fieldNodes fields := by
    rw [List.map_filterMap, fieldNodes]
    congr 1
    funext f
    rw [Option.map_map]
    rfl
  rw [hnodes] at hfields
  rw [Decoder.record, settle_node, Tree.record, Tree.node, entryNodes_eq_map]
  simp only [pure_bind, enter?_eq hs, liftM_some]
  rw [hfields, pure_bind]

theorem finds_record {read : Fields → Reading α} {fields : List (String × Option Tree)}
    (h : ∀ s : Scope, depth ≤ s.depth → read ⟨s, fieldNodes fields⟩ = pure a) :
    (Decoder.record read).Finds (depth + 1) (.record fields) a := by
  intro s hs
  rw [record_node (by omega)]
  exact h _ (show depth ≤ s.depth - 1 by omega)

/-! ### Refusals -/

/-- A decoder refuses what a tree says where fewer than `depth` collections may be entered. -/
def Refuses (d : Decoder α) (depth : Nat) (t : Tree) : Prop :=
  ∀ s : Scope, s.depth < depth → d s t.node = failure

@[simp] theorem failure_bind (f : α → Reading β) : (failure : Reading α) >>= f = failure := rfl

theorem bind_failure (x : Reading α) : (x >>= fun _ => (failure : Reading β)) = failure := by
  funext s
  change (x s).bind (fun _ => none) = none
  cases x s <;> rfl

/-- A traversal fails where it fails at one of the elements. -/
theorem mapM_eq_failure {γ : Type} {g : γ → Reading α} {xs : List γ} {x : γ} (hx : x ∈ xs)
    (hg : g x = failure) : xs.mapM g = failure := by
  induction xs with
  | nil => cases hx
  | cons y ys ih =>
      rw [List.mapM_cons]
      rcases List.mem_cons.1 hx with rfl | hx
      · rw [hg, failure_bind]
      · simp only [ih hx, failure_bind]
        exact bind_failure _

theorem refuses_list {γ : Type} {f : γ → Tree} {xs : List γ} {x : γ} (hx : x ∈ xs)
    (h : d.Refuses depth (f x)) : d.list.Refuses (depth + 1) (.list (xs.map f)) := by
  intro s hs
  rw [Decoder.list, settle_node, Tree.node, itemNodes_eq_map, List.map_map]
  simp only [pure_bind, Scope.enter?]
  split
  · rfl
  · exact mapM_eq_failure (List.mem_map_of_mem hx) (h _ (by simp; omega))

theorem refuses_record {read : Fields → Reading α} {fields : List (String × Option Tree)}
    (h : ∀ s : Scope, s.depth < depth → read ⟨s, fieldNodes fields⟩ = failure) :
    (Decoder.record read).Refuses (depth + 1) (.record fields) := by
  intro s hs
  by_cases h0 : s.depth = 0
  · rw [Decoder.record, settle_node, Tree.record, Tree.node, entryNodes_eq_map]
    simp only [pure_bind, Scope.enter?, if_pos h0]
    rfl
  · rw [record_node (by omega)]
    exact h _ (show s.depth - 1 < depth by omega)

end Decoder

/-! ### Fields -/

namespace Fields

variable {α : Type} {d : Decoder α} {depth : Nat} {s : Scope} {a : α} {name : String}
  {fields : List (String × Option Tree)}

/-- No field of a record is written twice. -/
def Distinct (fields : List (String × Option Tree)) : Prop := (fields.map Prod.fst).Nodup

theorem fieldNodes_cons (f : String × Option Tree) (fields : List (String × Option Tree)) :
    Decoder.fieldNodes (f :: fields) =
      (f.2.map fun t => (f.1, (t.node : Node Nat))).toList ++ Decoder.fieldNodes fields := by
  obtain ⟨k, _ | t⟩ := f <;> rfl

theorem filter_fieldNodes_of_notMem (h : name ∉ fields.map Prod.fst) :
    (Decoder.fieldNodes fields).filter (·.1 == name) = [] := by
  refine List.filter_eq_nil_iff.2 fun e he heq => h ?_
  obtain ⟨f, hf, hfe⟩ := List.mem_filterMap.1 he
  obtain ⟨t, -, rfl⟩ := Option.map_eq_some_iff.1 hfe
  exact List.mem_map.2 ⟨f, hf, beq_iff_eq.1 heq⟩

theorem filter_fieldNodes (h : Distinct fields) {x : Option Tree} (hx : (name, x) ∈ fields) :
    (Decoder.fieldNodes fields).filter (·.1 == name) =
      (x.map fun t => (name, (t.node : Node Nat))).toList := by
  induction fields with
  | nil => cases hx
  | cons f fields ih =>
      obtain ⟨hf, hrest⟩ := List.nodup_cons.1 h
      rw [fieldNodes_cons, List.filter_append]
      rcases List.mem_cons.1 hx with rfl | hx
      · rw [filter_fieldNodes_of_notMem hf, List.append_nil]
        cases x <;> simp
      · have hne : f.1 ≠ name := by
          rintro rfl
          exact hf (List.mem_map.2 ⟨_, hx, rfl⟩)
        rw [ih hrest hx]
        cases f.2 <;> simp [hne]

theorem node?_eq (h : Distinct fields) {x : Option Tree} (hx : (name, x) ∈ fields) :
    (Fields.mk s (Decoder.fieldNodes fields)).node? name = some (x.map Tree.node) := by
  rw [node?, filter_fieldNodes h hx]
  cases x <;> rfl

theorem required_eq_failure (h : Distinct fields) {t : Tree} (hx : (name, some t) ∈ fields)
    (hd : d.Refuses depth t) (hs : s.depth < depth) :
    (Fields.mk s (Decoder.fieldNodes fields)).required name d = failure := by
  rw [required, node?_eq h hx]
  exact hd s hs

theorem withDefault_eq_failure (h : Distinct fields) {t : Tree} (hx : (name, some t) ∈ fields)
    {default : α} (hd : d.Refuses depth t) (hs : s.depth < depth) :
    (Fields.mk s (Decoder.fieldNodes fields)).withDefault name default d = failure := by
  rw [withDefault, node?_eq h hx]
  exact hd s hs

theorem required_eq (h : Distinct fields) {t : Tree} (hx : (name, some t) ∈ fields)
    (hd : d.Finds depth t a) (hs : depth ≤ s.depth) :
    (Fields.mk s (Decoder.fieldNodes fields)).required name d = pure a := by
  rw [required, node?_eq h hx]
  exact hd s hs

/-- A decoder finds a value in a field, or the default where there is no such field. -/
def Holds (d : Decoder α) (depth : Nat) (default : α) (x : Option Tree) (a : α) : Prop :=
  match x with
  | none => a = default
  | some t => d.Finds depth t a

theorem withDefault_eq (h : Distinct fields) {x : Option Tree} (hx : (name, x) ∈ fields)
    {default : α} (hd : Holds d depth default x a) (hs : depth ≤ s.depth) :
    (Fields.mk s (Decoder.fieldNodes fields)).withDefault name default d = pure a := by
  rw [withDefault, node?_eq h hx]
  cases x with
  | none =>
      rw [show a = default from hd]
      rfl
  | some t => exact hd s hs

/-- A field that is written if there is something to be written. -/
theorem optional_eq (h : Distinct fields) {o : Option α} {f : α → Tree}
    (hx : (name, o.map f) ∈ fields) (hd : ∀ a ∈ o, d.Finds depth (f a) a) (hs : depth ≤ s.depth) :
    (Fields.mk s (Decoder.fieldNodes fields)).optional name d = pure o := by
  refine withDefault_eq h hx ?_ hs
  cases o with
  | none => rfl
  | some a => exact Decoder.finds_optional (hd a rfl)

end Fields

/-! ### Texts -/

namespace Decoder

variable {α : Type} {d : Decoder α} {depth : Nat}

theorem Finds.document_eq {t : Tree} {a : α} (h : d.Finds depth t a) (hdepth : depth ≤ deepest) :
    d.document t.document = some a := by
  rw [Decoder.document, Tree.document, h _ hdepth]
  rfl

/-- **What a decoder finds in a list or map is what it reads out of its text.** -/
theorem Finds.single_render {t : Tree} {a : α} (h : d.Finds depth t a) (hdepth : depth ≤ deepest)
    (ht : t.isCollection = true) : d.single t.render = some a := by
  rw [Decoder.single, documents?_render ht]
  exact h.document_eq hdepth

/-- Nothing is read out of a text that is refused at every depth a reader goes to. -/
theorem Refuses.single_render {t : Tree} (h : d.Refuses depth t) (hdepth : deepest < depth)
    (ht : t.isCollection = true) : d.single t.render = none := by
  rw [Decoder.single, documents?_render ht]
  simp only [Option.bind_eq_bind, Option.bind_some, Decoder.document, Tree.document]
  rw [h _ hdepth]
  rfl

/-- **What a decoder finds in lists or maps is what it reads out of their text.** -/
theorem several_renderAll {γ : Type} {f : γ → Tree} {g : γ → α} {xs : List γ} (hne : xs ≠ [])
    (h : ∀ x ∈ xs, d.Finds depth (f x) (g x)) (hdepth : depth ≤ deepest)
    (hf : ∀ x ∈ xs, (f x).isCollection = true) :
    d.several (renderAll (xs.map f)) = some (xs.map g) := by
  obtain ⟨x, xs, rfl⟩ := List.exists_cons_of_ne_nil hne
  rw [Decoder.several, documents?_renderAll (by simp) (by simpa using hf), List.map_map]
  exact List.mapM_map_eq_pure (x :: xs) fun y hy => (h y hy).document_eq hdepth

end Decoder

end StreamPipeline.Yaml
